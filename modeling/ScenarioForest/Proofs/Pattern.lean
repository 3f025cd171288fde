import Mathlib.Data.List.Basic
import ScenarioForest.Proofs.Text
import ScenarioForest.Text.Pattern
set_option autoImplicit false

/-!
The ways of patterns: which texts they take, and which way comes first where something else has to
follow.
-/

namespace ScenarioForest

section

variable {p q : Pattern} {t : Text} {m : Take}

theorem Pattern.mem_ways_seq :
    m ∈ (seq p q).ways t ↔ ∃ a ∈ p.ways t, ∃ b ∈ q.ways a.rest, m = a.andThen b := by
  simp [ways, eq_comm]

theorem Pattern.mem_ways_either : m ∈ (either p q).ways t ↔ m ∈ p.ways t ∨ m ∈ q.ways t := by
  simp [ways]

theorem Pattern.mem_ways_noted {name : String} :
    m ∈ (noted name p).ways t ↔ ∃ a ∈ p.ways t, m = a.noted name := by
  simp [ways, eq_comm]

theorem Pattern.mem_ways_finish : m ∈ finish.ways t ↔ t = [] ∧ m = .nothing [] := by
  cases t <;> simp [ways]

theorem Pattern.ways_repeated (greedy : Bool) (h : ∀ m ∈ p.ways t, m.rest.length < t.length) :
    (repeated greedy p).ways t =
      if greedy then (p.oneOrMore greedy).ways t ++ [.nothing t]
      else .nothing t :: (p.oneOrMore greedy).ways t := by
  have hmore : (p.ways t).flatMap (fun m => if m.rest.length < t.length then
      (rounds p.ways greedy m.rest).map m.andThen else []) = (p.oneOrMore greedy).ways t :=
    List.flatMap_congr fun m hm => if_pos (h m hm)
  rw [← hmore, ways, rounds]

theorem Pattern.mem_ways_repeated {greedy : Bool}
    (h : ∀ m ∈ p.ways t, m.rest.length < t.length) :
    m ∈ (repeated greedy p).ways t ↔ m ∈ (p.oneOrMore greedy).ways t ∨ m = .nothing t := by
  rw [ways_repeated greedy h]
  cases greedy <;> simp [or_comm]

end

/-- The texts that a pattern takes, whatever follows them. It notes nothing. -/
def Pattern.Takes (p : Pattern) (L : Text → Prop) : Prop :=
  ∀ t m, m ∈ p.ways t ↔ ∃ x rest, t = x ++ rest ∧ L x ∧ m = ⟨x, [], rest⟩

section

variable {p q : Pattern} {L M : Text → Prop}

theorem Pattern.Takes.congr (h : p.Takes L) (hL : ∀ x, L x ↔ M x) : p.Takes M := by
  obtain rfl : L = M := funext fun x => propext (hL x)
  exact h

theorem Pattern.takes_word (w : Text) : (word w).Takes (· = w) := by
  intro t m
  simp [ways, eq_comm]

theorem Pattern.mem_ways_word_seq {w t : Text} {m : Take} : m ∈ (seq (word w) q).ways t ↔
    ∃ rest, t = w ++ rest ∧ ∃ b ∈ q.ways rest, m = ⟨w ++ b.taken, b.notes, b.rest⟩ := by
  rw [mem_ways_seq]
  constructor
  · intro h
    obtain ⟨a, ha, b, hb, rfl⟩ := h
    obtain ⟨w, rest, rfl, rfl, rfl⟩ := (takes_word _ _ _).1 ha
    exact ⟨rest, rfl, b, hb, by simp [Take.andThen]⟩
  · intro h
    obtain ⟨rest, rfl, b, hb, rfl⟩ := h
    exact ⟨_, (takes_word w _ _).2 ⟨w, rest, rfl, rfl, rfl⟩, b, hb, by simp [Take.andThen]⟩

theorem Pattern.takes_one (allowed : Char → Bool) :
    (one allowed).Takes fun x => ∃ c, allowed c = true ∧ x = [c] := by
  intro t m
  cases t with
  | nil => simp [ways]
  | cons c rest => by_cases h : allowed c = true <;> simp [ways, h, and_assoc]

theorem Pattern.Takes.seq (hp : p.Takes L) (hq : q.Takes M) :
    (Pattern.seq p q).Takes fun z => ∃ x y, L x ∧ M y ∧ z = x ++ y := by
  intro t m
  rw [mem_ways_seq]
  constructor
  · intro h
    obtain ⟨a, ha, b, hb, rfl⟩ := h
    obtain ⟨x, s, rfl, hx, rfl⟩ := (hp _ _).1 ha
    obtain ⟨y, rest, hs, hy, rfl⟩ := (hq _ _).1 hb
    obtain rfl : s = y ++ rest := hs
    exact ⟨x ++ y, rest, by simp, ⟨x, y, hx, hy, rfl⟩, rfl⟩
  · intro h
    obtain ⟨z, rest, rfl, hz, rfl⟩ := h
    obtain ⟨x, y, hx, hy, rfl⟩ := hz
    exact ⟨_, (hp _ _).2 ⟨x, y ++ rest, by simp, hx, rfl⟩, _, (hq _ _).2 ⟨y, rest, rfl, hy, rfl⟩, rfl⟩

theorem Pattern.Takes.either (hp : p.Takes L) (hq : q.Takes M) :
    (Pattern.either p q).Takes fun x => L x ∨ M x := by
  intro t m
  rw [mem_ways_either, hp, hq]
  constructor
  · intro h
    cases h with
    | inl h =>
      obtain ⟨x, rest, ht, hx, hm⟩ := h
      exact ⟨x, rest, ht, .inl hx, hm⟩
    | inr h =>
      obtain ⟨x, rest, ht, hx, hm⟩ := h
      exact ⟨x, rest, ht, .inr hx, hm⟩
  · intro h
    obtain ⟨x, rest, ht, hx, hm⟩ := h
    exact hx.imp (fun hx => ⟨x, rest, ht, hx, hm⟩) fun hx => ⟨x, rest, ht, hx, hm⟩

theorem Pattern.Takes.mem_ways_noted (h : p.Takes L) {name : String} {t : Text} {m : Take} :
    m ∈ (noted name p).ways t ↔ ∃ x rest, t = x ++ rest ∧ L x ∧ m = ⟨x, [(name, x)], rest⟩ := by
  rw [Pattern.mem_ways_noted]
  constructor
  · intro hm
    obtain ⟨a, ha, rfl⟩ := hm
    obtain ⟨x, rest, ht, hx, rfl⟩ := (h t a).1 ha
    exact ⟨x, rest, ht, hx, rfl⟩
  · intro hm
    obtain ⟨x, rest, ht, hx, rfl⟩ := hm
    exact ⟨_, (h t _).2 ⟨x, rest, ht, hx, rfl⟩, rfl⟩

theorem Pattern.Takes.length_rest (h : p.Takes L) (hL : ¬ L []) (t : Text) :
    ∀ m ∈ p.ways t, m.rest.length < t.length := by
  intro m hm
  obtain ⟨x, rest, rfl, hx, rfl⟩ := (h t m).1 hm
  have hpos : 0 < x.length := List.length_pos_of_ne_nil fun hnil => hL (hnil ▸ hx)
  simp only [List.length_append]
  omega

theorem Pattern.length_rest_one (allowed : Char → Bool) (t : Text) :
    ∀ m ∈ (one allowed).ways t, m.rest.length < t.length :=
  (takes_one allowed).length_rest (by simp) t

theorem Pattern.takes_repeated_one (greedy : Bool) (allowed : Char → Bool) :
    (repeated greedy (one allowed)).Takes fun x => ∀ c ∈ x, allowed c = true := by
  intro t
  induction t with
  | nil =>
    intro m
    rw [mem_ways_repeated (length_rest_one allowed []), oneOrMore, mem_ways_seq]
    simp [ways, Take.nothing]
  | cons c t ih =>
    intro m
    rw [mem_ways_repeated (length_rest_one allowed _), oneOrMore, mem_ways_seq]
    constructor
    · intro h
      cases h with
      | inl h =>
        obtain ⟨a, ha, b, hb, rfl⟩ := h
        obtain ⟨x, s, ht, hx, rfl⟩ := (takes_one allowed _ _).1 ha
        obtain ⟨d, hd, rfl⟩ := hx
        obtain ⟨rfl, rfl⟩ := List.cons.inj ht
        obtain ⟨x, rest, rfl, hx, rfl⟩ := (ih b).1 hb
        exact ⟨c :: x, rest, rfl, List.forall_mem_cons.2 ⟨hd, hx⟩, rfl⟩
      | inr h => exact ⟨[], c :: t, rfl, by simp, h⟩
    · intro h
      obtain ⟨x, rest, ht, hall, rfl⟩ := h
      cases x with
      | nil =>
        obtain rfl : c :: t = rest := ht
        exact .inr rfl
      | cons d x =>
        obtain ⟨rfl, rfl⟩ := List.cons.inj ht
        obtain ⟨hc, hx⟩ := List.forall_mem_cons.1 hall
        exact .inl ⟨_, (takes_one allowed _ _).2 ⟨[c], _, rfl, ⟨c, hc, rfl⟩, rfl⟩, _,
          (ih _).2 ⟨x, rest, rfl, hx, rfl⟩, rfl⟩

theorem Pattern.takes_oneOrMore_one (greedy : Bool) (allowed : Char → Bool) :
    ((one allowed).oneOrMore greedy).Takes fun x => x ≠ [] ∧ ∀ c ∈ x, allowed c = true := by
  refine ((takes_one allowed).seq (takes_repeated_one greedy allowed)).congr fun z => ?_
  constructor
  · intro h
    obtain ⟨x, y, hx, hy, rfl⟩ := h
    obtain ⟨c, hc, rfl⟩ := hx
    exact ⟨by simp, List.forall_mem_cons.2 ⟨hc, hy⟩⟩
  · intro h
    obtain ⟨hne, hall⟩ := h
    obtain ⟨c, y, rfl⟩ := List.exists_cons_of_ne_nil hne
    obtain ⟨hc, hy⟩ := List.forall_mem_cons.1 hall
    exact ⟨[c], y, ⟨c, hc, rfl⟩, hy, rfl⟩

end

theorem findSome?_flatMap {α β γ : Type} (l : List α) (f : α → List β) (k : β → Option γ) :
    (l.flatMap f).findSome? k = l.findSome? fun a => (f a).findSome? k := by
  induction l with
  | nil => rfl
  | cons a l ih =>
    rw [List.flatMap_cons, List.findSome?_append, List.findSome?_cons, ih]
    cases (f a).findSome? k <;> rfl

/-- Where all ways are the same, the first of them decides. -/
theorem findSome?_of_mem_iff {α β : Type} {l : List α} {o : Option α} (h : ∀ a, a ∈ l ↔ a ∈ o)
    (k : α → Option β) : l.findSome? k = o.bind k := by
  have hall : ∀ a ∈ l, k a = o.bind k := by
    intro a ha
    rw [(h a).1 ha, Option.bind_some]
  cases l with
  | nil =>
    have hnone : o = none := Option.eq_none_iff_forall_not_mem.2 fun a ha => by
      simpa using (h a).2 ha
    rw [hnone]
    rfl
  | cons a l =>
    rw [List.findSome?_cons, hall a (by simp)]
    cases hk : o.bind k with
    | some b => rfl
    | none => exact List.findSome?_eq_none_iff.2 fun b hb => (hall b (by simp [hb])).trans hk

section

variable {p q : Pattern} {t : Text} {β : Type} (k : Take → Option β)

theorem Pattern.notes?_eq_findSome? : p.notes? t = (p.ways t).findSome? fun m => some m.notes := by
  rw [notes?]
  cases p.ways t <;> rfl

theorem Pattern.findSome?_word (w : Text) :
    ((word w).ways (w ++ t)).findSome? k = k ⟨w, [], t⟩ := by
  have hrest : w.isPrefixOf? (w ++ t) = some t := List.isPrefixOf?_eq_some_iff_append_eq.2 rfl
  rw [ways, hrest]
  exact List.findSome?_singleton

theorem Pattern.findSome?_one (allowed : Char → Bool) (c : Char) :
    ((one allowed).ways (c :: t)).findSome? k =
      if allowed c then k ⟨[c], [], t⟩ else none := by
  by_cases h : allowed c = true <;> simp [ways, h]

theorem Pattern.findSome?_seq : ((seq p q).ways t).findSome? k =
    (p.ways t).findSome? fun a => (q.ways a.rest).findSome? fun b => k (a.andThen b) := by
  rw [ways, findSome?_flatMap]
  simp only [List.findSome?_map, Function.comp_def]

theorem Pattern.findSome?_noted {name : String} : ((noted name p).ways t).findSome? k =
    (p.ways t).findSome? fun a => k (a.noted name) := by
  rw [ways, List.findSome?_map]
  rfl

/-- A greedy repetition goes on as long as it can, if that lets the rest succeed. -/
theorem Pattern.findSome?_greedy (h : ∀ m ∈ p.ways t, m.rest.length < t.length) :
    ((repeated true p).ways t).findSome? k =
      (((p.oneOrMore true).ways t).findSome? k).or (k (.nothing t)) := by
  rw [ways_repeated true h, if_pos rfl, List.findSome?_append, List.findSome?_singleton]

theorem Pattern.findSome?_lazy (h : ∀ m ∈ p.ways t, m.rest.length < t.length) :
    ((repeated false p).ways t).findSome? k =
      (k (.nothing t)).or (((p.oneOrMore false).ways t).findSome? k) := by
  rw [ways_repeated false h, if_neg Bool.false_ne_true, List.findSome?_cons]
  cases k (.nothing t) <;> rfl

end

end ScenarioForest
