import ScenarioForest.Proofs.Beginning
set_option autoImplicit false

/-!
The first fault of a document. Reading ends at the first line that cannot be added to what the
lines before it made. Later lines play no part in the error, and the lines before it are a document
of their own, whose forest is the beginning of every forest that goes on from there.
-/

namespace ScenarioForest

/-- The text of the first lines of a document, with the line ends they have there. -/
def Text.firstLines : Nat → Text → Text
  | 0, _ => []
  | _ + 1, [] => []
  | n + 1, '\n' :: t => '\n' :: Text.firstLines n t
  | n + 1, c :: t => c :: Text.firstLines (n + 1) t

theorem Text.firstLines_cons_of_ne (n : Nat) {c : Char} (t : Text) (hc : c ≠ '\n') :
    Text.firstLines (n + 1) (c :: t) = c :: Text.firstLines (n + 1) t := by
  rw [firstLines.eq_def]
  split <;> simp_all

theorem Text.head?_firstLines (n : Nat) (t : Text) :
    (Text.firstLines (n + 1) t).head? = t.head? := by
  cases t with
  | nil => rfl
  | cons c t =>
    by_cases hc : c = '\n'
    · subst hc
      rfl
    · rw [firstLines_cons_of_ne n t hc, List.head?_cons, List.head?_cons]

theorem take_startLine (c : Char) (n : Nat) (lines : List Text) :
    (startLine c lines).take (n + 1) = startLine c (lines.take (n + 1)) := by
  cases lines <;> simp [startLine]

theorem Text.lines_firstLines (n : Nat) (t : Text) :
    Text.lines (Text.firstLines n t) = (Text.lines t).take n := by
  induction t using Text.lines.induct generalizing n with
  | case1 => cases n <;> simp [firstLines, lines]
  | case2 t ih => cases n <;> simp [firstLines, lines, ih]
  | case3 t ih =>
    cases n with
    | zero => simp [firstLines, lines]
    | succ n =>
      rw [firstLines_cons_of_ne n _ (by decide), firstLines, lines, lines, ih, List.take_succ_cons]
  | case4 c t hn hr ih =>
    cases n with
    | zero => simp [firstLines, lines]
    | succ n =>
      have hhead := Text.head?_ne_of_return hr
      have hcut : c = '\r' → (firstLines (n + 1) t).head? ≠ some '\n' := by
        rw [head?_firstLines]
        exact hhead
      rw [firstLines_cons_of_ne n t hn, lines_cons_of_ne hn hcut, lines_cons_of_ne hn hhead, ih,
        take_startLine]

/-- The lines before a place are read, and the line at that place has a fault. -/
def Draft.FailsAt (d : Draft) (lines : List Text) (k : Nat) (fault : Fault) : Prop :=
  ∃ m raw, d.Reads (lines.take k) m ∧ lines[k]? = some raw ∧ m.push raw = .error fault

theorem Draft.failsAt_cons_succ {d : Draft} {raw : Text} {rest : List Text} {k : Nat}
    {fault : Fault} : d.FailsAt (raw :: rest) (k + 1) fault ↔
      ∃ m, d.push raw = .ok m ∧ m.FailsAt rest k fault := by
  simp only [FailsAt, List.take_succ_cons, Reads, List.getElem?_cons_succ]
  constructor
  · intro h
    obtain ⟨e, line, ⟨m, hm, he⟩, hline, hfault⟩ := h
    exact ⟨m, hm, e, line, he, hline, hfault⟩
  · intro h
    obtain ⟨m, hm, e, line, he, hline, hfault⟩ := h
    exact ⟨e, line, ⟨m, hm, he⟩, hline, hfault⟩

theorem Draft.failsAt_cons_zero {d : Draft} {raw : Text} {rest : List Text} {fault : Fault} :
    d.FailsAt (raw :: rest) 0 fault ↔ d.push raw = .error fault := by
  simp [FailsAt, Reads]

theorem Draft.FailsAt.lt_length {d : Draft} {lines : List Text} {k : Nat} {fault : Fault}
    (h : d.FailsAt lines k fault) : k < lines.length := by
  obtain ⟨-, raw, -, hline, -⟩ := h
  exact (List.getElem?_eq_some_iff.1 hline).1

theorem Draft.FailsAt.congr {d : Draft} {lines others : List Text} {k : Nat} {fault : Fault}
    (h : d.FailsAt lines k fault) (hsame : others.take (k + 1) = lines.take (k + 1)) :
    d.FailsAt others k fault := by
  obtain ⟨m, raw, hread, hline, hfault⟩ := h
  have hbefore : others.take k = lines.take k := by
    have := congrArg (List.take k) hsame
    rwa [List.take_take, List.take_take, Nat.min_eq_left (Nat.le_succ k)] at this
  have hat : others[k]? = lines[k]? := by
    have := congrArg (·[k]?) hsame
    simpa using this
  exact ⟨m, raw, hbefore ▸ hread, hat ▸ hline, hfault⟩

theorem Draft.pushAll_eq_error_iff {d : Draft} {n : Nat} {lines : List Text} {e : ParseError} :
    d.pushAll n lines = .error e ↔ ∃ k, e.lineNo = n + k ∧ d.FailsAt lines k e.fault := by
  induction lines generalizing d n with
  | nil => simp [pushAll, FailsAt]
  | cons raw rest ih =>
    rw [pushAll, ← Nat.or_exists_add_one]
    simp only [failsAt_cons_zero, failsAt_cons_succ]
    cases hp : d.push raw with
    | error fault =>
      cases e
      simp [eq_comm]
    | ok m => simp [ih, Nat.add_comm, Nat.add_left_comm]

theorem Forest.parse_eq_error_iff {o : ParseOptions} {t : Text} {e : ParseError} :
    Forest.parse o t = .error e ↔
      ∃ k, e.lineNo = k + 1 ∧ (Draft.start o).FailsAt (Text.lines t) k e.fault := by
  simp only [Nat.add_comm _ 1, ← Draft.pushAll_eq_error_iff, parse, ofLines]
  cases (Draft.start o).pushAll 1 (Text.lines t) <;> simp [Except.map]

section

variable {o : ParseOptions} {t : Text} {e : ParseError} (h : Forest.parse o t = .error e)

include h

theorem Forest.lineNo_le_of_parse_error : e.lineNo ≤ (Text.lines t).length := by
  obtain ⟨k, hk, hfails⟩ := parse_eq_error_iff.1 h
  have := hfails.lt_length
  omega

theorem Forest.parse_error_congr {u : Text}
    (hu : (Text.lines u).take e.lineNo = (Text.lines t).take e.lineNo) :
    Forest.parse o u = .error e := by
  obtain ⟨k, hk, hfails⟩ := parse_eq_error_iff.1 h
  rw [hk] at hu
  exact parse_eq_error_iff.2 ⟨k, hk, hfails.congr hu⟩

theorem Forest.parse_firstLines_of_lineNo_le {n : Nat} (hn : e.lineNo ≤ n) :
    Forest.parse o (Text.firstLines n t) = .error e := by
  refine parse_error_congr h ?_
  rw [Text.lines_firstLines, List.take_take, Nat.min_eq_left hn]

theorem Forest.exists_parse_firstLines_of_error :
    ∃ f, Forest.parse o (Text.firstLines (e.lineNo - 1) t) = .ok f := by
  obtain ⟨k, hk, m, -, hread, -⟩ := parse_eq_error_iff.1 h
  refine ⟨m.forest, parse_eq_ok_iff.2 ⟨m, ?_, rfl⟩⟩
  rw [Text.lines_firstLines, hk, Nat.add_sub_cancel]
  exact hread

end

theorem Forest.exists_parse_firstLines_of_ok {o : ParseOptions} {t : Text} {f : Forest}
    (h : Forest.parse o t = .ok f) (n : Nat) :
    ∃ g, Forest.parse o (Text.firstLines n t) = .ok g ∧ g.Begins f := by
  obtain ⟨d, hd, rfl⟩ := parse_eq_ok_iff.1 h
  rw [← List.take_append_drop n (Text.lines t)] at hd
  obtain ⟨m, hm, hrest⟩ := Draft.reads_append.1 hd
  refine ⟨m.forest, parse_eq_ok_iff.2 ⟨m, ?_, rfl⟩, hrest.begins⟩
  rw [Text.lines_firstLines]
  exact hm

/-- A line ends the reading of a document exactly when the lines before it are a document and those
up to it are none, and then every text that starts with these lines has the same error. If there is
no such line, the first lines of the document are always a document, and its forest is the
beginning of the whole forest. -/
theorem parse_stops_at_first_fault (o : ParseOptions) (t : Text) :
    (∀ n, (∃ fault, Forest.parse o t = .error ⟨n, fault⟩) ↔
      (∃ f, Forest.parse o (Text.firstLines (n - 1) t) = .ok f) ∧
        ∃ e, Forest.parse o (Text.firstLines n t) = .error e) ∧
    (∀ e, Forest.parse o t = .error e → ∀ u : Text,
      (Text.lines u).take e.lineNo = (Text.lines t).take e.lineNo →
        Forest.parse o u = .error e) ∧
    ∀ f, Forest.parse o t = .ok f → ∀ n,
      ∃ g, Forest.parse o (Text.firstLines n t) = .ok g ∧ g.Begins f := by
  refine ⟨fun n => ⟨fun hfault => ?_, fun hlines => ?_⟩, fun e he u hu => ?_, fun f hf n => ?_⟩
  · obtain ⟨fault, he⟩ := hfault
    exact ⟨Forest.exists_parse_firstLines_of_error he, _,
      Forest.parse_firstLines_of_lineNo_le he (Nat.le_refl n)⟩
  · obtain ⟨⟨f, hf⟩, e, he⟩ := hlines
    have hle : e.lineNo ≤ n := by
      have := Forest.lineNo_le_of_parse_error he
      rw [Text.lines_firstLines, List.length_take] at this
      omega
    have hwhole : Forest.parse o t = .error e := by
      refine Forest.parse_error_congr he ?_
      rw [Text.lines_firstLines, List.take_take, Nat.min_eq_left hle]
    -- One line less is a document, so the fault is not among the lines before the last one.
    have hlast : e.lineNo = n := by
      by_contra hne
      have hfirst := Forest.parse_firstLines_of_lineNo_le hwhole (show e.lineNo ≤ n - 1 by omega)
      rw [hf] at hfirst
      cases hfirst
    subst hlast
    exact ⟨e.fault, hwhole⟩
  · exact Forest.parse_error_congr he hu
  · exact Forest.exists_parse_firstLines_of_ok hf n

def raggedDocument : Text :=
  "Scenario: A\nGiven a\n\n    | x |\n    | y |\n    | y | z |\nThen b".toList

theorem parse_stops_at_first_fault_ragged :
    Forest.parse {} (raggedDocument ++ "\nFeature: F".toList) =
      .error ⟨6, .unevenDataRow ⟨3, 1, 2⟩⟩ ∧
    ∃ f, Forest.parse {} (Text.firstLines 5 raggedDocument) = .ok f ∧
      ∃ g, Forest.parse {} (Text.firstLines 4 (Text.firstLines 5 raggedDocument)) = .ok g ∧
        g.Begins f := by
  have herror : Forest.parse {} raggedDocument = .error ⟨6, .unevenDataRow ⟨3, 1, 2⟩⟩ := by
    decide +kernel
  obtain ⟨hiff, hsame, -⟩ := parse_stops_at_first_fault {} raggedDocument
  obtain ⟨⟨f, hf⟩, -⟩ := (hiff 6).1 ⟨_, herror⟩
  obtain ⟨-, -, hbegins⟩ := parse_stops_at_first_fault {} (Text.firstLines 5 raggedDocument)
  refine ⟨?_, f, hf, hbegins f hf 4⟩
  exact hsame _ herror _ (by decide +kernel)

end ScenarioForest
