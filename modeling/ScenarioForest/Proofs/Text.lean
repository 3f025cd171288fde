import Mathlib.Data.List.DropRight
import Mathlib.Data.List.Infix
import ScenarioForest.Text.Comment
import ScenarioForest.Text.Lines
set_option autoImplicit false

/-!
Trimmed texts, lines of a document, and texts without a comment mark.
-/

namespace ScenarioForest

structure Text.Trimmed (t : Text) : Prop where
  head : ∀ c ∈ t.head?, isBlank c = false
  last : ∀ c ∈ t.getLast?, isBlank c = false

theorem Text.trimEnd_isPrefix (t : Text) : Text.trimEnd t <+: t := List.rdropWhile_prefix isBlank t

theorem Text.trimStart_suffix (t : Text) : Text.trimStart t <:+ t := List.dropWhile_suffix isBlank

theorem Text.trim_isInfix (t : Text) : Text.trim t <:+: t :=
  (trimEnd_isPrefix _).isInfix.trans (trimStart_suffix t).isInfix

theorem Text.mem_of_mem_trim {t : Text} {c : Char} (h : c ∈ Text.trim t) : c ∈ t :=
  (trim_isInfix t).subset h

theorem Text.trimStart_head {t : Text} {c : Char} (h : c ∈ (Text.trimStart t).head?) :
    isBlank c = false := by
  have hd := List.head?_dropWhile_not isBlank t
  rw [show (t.dropWhile isBlank).head? = some c from h] at hd
  simpa using hd

theorem Text.trimEnd_last {t : Text} {c : Char} (h : c ∈ (Text.trimEnd t).getLast?) :
    isBlank c = false := by
  rw [trimEnd, List.getLast?_reverse] at h
  exact trimStart_head (t := t.reverse) h

theorem Text.trimEnd_head {t : Text} {c : Char} (h : c ∈ (Text.trimEnd t).head?) :
    c ∈ t.head? := by
  obtain ⟨s, hs⟩ := trimEnd_isPrefix t
  rw [← hs]
  cases he : Text.trimEnd t with
  | nil => simp [he] at h
  | cons d r => simpa [he] using h

theorem Text.trimmed_trim (t : Text) : Text.Trimmed (Text.trim t) :=
  ⟨fun _ h => trimStart_head (trimEnd_head h), fun _ h => trimEnd_last h⟩

theorem Text.trimStart_of_head {t : Text} (h : ∀ c ∈ t.head?, isBlank c = false) :
    Text.trimStart t = t := by
  cases t with
  | nil => rfl
  | cons c t => exact trimStart_cons (h c (by simp))

theorem Text.trimEnd_of_last {t : Text} (h : ∀ c ∈ t.getLast?, isBlank c = false) :
    Text.trimEnd t = t := by
  rcases List.eq_nil_or_concat t with rfl | ⟨s, c, rfl⟩
  · rfl
  · simpa using trimEnd_concat (t := s) (h c (by simp))

theorem Text.Trimmed.trim_eq {t : Text} (h : Text.Trimmed t) : Text.trim t = t := by
  rw [Text.trim, trimStart_of_head h.head, trimEnd_of_last h.last]

theorem Text.trimStart_append_of_blank {a t : Text} (h : ∀ c ∈ a, isBlank c = true) :
    Text.trimStart (a ++ t) = Text.trimStart t := by
  simp only [trimStart]
  rw [List.dropWhile_append_of_pos h]

theorem Text.trimEnd_append_of_blank {t b : Text} (h : ∀ c ∈ b, isBlank c = true) :
    Text.trimEnd (t ++ b) = Text.trimEnd t := by
  have hb : ∀ c ∈ b.reverse, isBlank c = true := by simpa using h
  simpa [trimEnd, trimStart] using congrArg List.reverse (trimStart_append_of_blank (t := t.reverse) hb)

theorem Text.Trimmed.trim_pad {a t b : Text} (ht : Text.Trimmed t)
    (ha : ∀ c ∈ a, isBlank c = true) (hb : ∀ c ∈ b, isBlank c = true) :
    Text.trim (a ++ t ++ b) = t := by
  rw [Text.trim, List.append_assoc, trimStart_append_of_blank ha]
  cases t with
  | nil =>
    have h : Text.trimStart b = [] := by
      have := trimStart_append_of_blank (t := []) hb
      simpa [trimStart] using this
    simp [h, trimEnd]
  | cons c t =>
    rw [List.cons_append, trimStart_cons (ht.head c (by simp)), ← List.cons_append,
      trimEnd_append_of_blank hb, trimEnd_of_last ht.last]

theorem startLine_newline {c : Char} {ls : List Text} (hc : c ≠ '\n')
    (h : ∀ l ∈ ls, '\n' ∉ l) : ∀ l ∈ startLine c ls, '\n' ∉ l := by
  cases ls with
  | nil => simpa [startLine] using hc.symm
  | cons l ls =>
    obtain ⟨hl, hls⟩ := List.forall_mem_cons.1 h
    refine List.forall_mem_cons.2 ⟨?_, hls⟩
    simpa using ⟨hc.symm, hl⟩

theorem Text.newline_not_mem_lines (t : Text) : ∀ l ∈ Text.lines t, '\n' ∉ l := by
  fun_induction Text.lines t with
  | case1 => simp
  | case2 t ih => simpa using ih
  | case3 t ih => simpa using ih
  | case4 c t hn hr ih => exact startLine_newline (fun h => hn h) ih

def Text.Unmarked (t : Text) : Prop := ¬ commentMark <:+: t

theorem Text.comment?_eq_some_iff {t k : Text} :
    Text.comment? t = some k ↔ t = commentMark ++ k ∧ k ≠ [] := by
  unfold comment?
  constructor
  · intro h
    split at h
    · next c rest hm =>
      cases h
      rw [List.isPrefixOf?_eq_some_iff_append_eq] at hm
      exact ⟨hm.symm, by simp⟩
    · cases h
  · rintro ⟨rfl, hk⟩
    have hm : commentMark.isPrefixOf? (commentMark ++ k) = some k :=
      List.isPrefixOf?_eq_some_iff_append_eq.2 rfl
    rw [hm]
    cases k with
    | nil => exact absurd rfl hk
    | cons c rest => rfl

theorem Text.cutComment_append (t : Text) :
    (Text.cutComment t).1 ++ ((Text.cutComment t).2.elim [] (commentMark ++ ·)) = t := by
  induction t with
  | nil => rfl
  | cons c t ih =>
    unfold cutComment
    split
    · next k h => simpa using (comment?_eq_some_iff.1 h).1.symm
    · simpa using ih

theorem Text.comment?_append {k : Text} (h : k ≠ []) :
    Text.comment? (commentMark ++ k) = some k := comment?_eq_some_iff.2 ⟨rfl, h⟩

/-- Cutting leaves no mark with something behind it in front of the cut. -/
theorem Text.cutComment_mark {t a k : Text}
    (h : (Text.cutComment t).1 = a ++ commentMark ++ k) : k = [] := by
  induction t generalizing a with
  | nil => simp [cutComment, commentMark] at h
  | cons c t ih =>
    have hall := cutComment_append (c :: t)
    unfold cutComment at h hall
    split at h
    · simp [commentMark] at h
    · next hn =>
      cases a with
      | cons d a =>
        simp only [List.cons_append, List.cons.injEq] at h
        exact ih h.2
      | nil =>
        -- The mark would stand at the very front, and the cut would have been made there.
        by_contra hk
        simp only [hn] at hall
        simp only at h
        rw [h] at hall
        have hs : Text.comment? (c :: t) ≠ none := by
          rw [← hall, List.nil_append, List.append_assoc, comment?_append (by simp [hk])]
          simp
        exact hs hn

theorem Text.cutComment_ne_nil {t k : Text} (h : (Text.cutComment t).2 = some k) : k ≠ [] := by
  induction t with
  | nil => cases h
  | cons c t ih =>
    unfold cutComment at h
    split at h
    · next m hm =>
      cases h
      exact (comment?_eq_some_iff.1 hm).2
    · exact ih h

theorem Text.Unmarked.cutComment_eq {t : Text} (h : Text.Unmarked t) :
    Text.cutComment t = (t, none) := by
  induction t with
  | nil => rfl
  | cons c t ih =>
    have ht := ih fun hm => h (hm.trans (List.suffix_cons c t).isInfix)
    have hn : Text.comment? (c :: t) = none := by
      cases hc : Text.comment? (c :: t) with
      | none => rfl
      | some k =>
        refine absurd ?_ h
        rw [(comment?_eq_some_iff.1 hc).1]
        exact (List.prefix_append _ _).isInfix
    simp [cutComment, hn, ht]

/-- What is left of a text before its comment, trimmed and apart from its first character, holds
no mark any more. -/
theorem Text.unmarked_trim_cutComment (c : Char) (t : Text) :
    Text.Unmarked (Text.trim (c :: (Text.cutComment t).1)) := by
  rintro ⟨a, k, h⟩
  have htrim := trimmed_trim (c :: (Text.cutComment t).1)
  obtain ⟨p, q, hpq⟩ := trim_isInfix (c :: (Text.cutComment t).1)
  rw [← h] at htrim hpq
  have hblank : isBlank ' ' = true := by decide
  have ha : a ≠ [] := by
    rintro rfl
    have := htrim.head ' ' (by simp [commentMark])
    simp [hblank] at this
  have hk : k ≠ [] := by
    rintro rfl
    have := htrim.last ' ' (by simp [commentMark])
    simp [hblank] at this
  obtain ⟨d, r, hd⟩ := List.exists_cons_of_ne_nil (List.append_ne_nil_of_right_ne_nil p ha)
  have hcut : d :: (r ++ commentMark ++ (k ++ q)) = c :: (Text.cutComment t).1 := by
    rw [← hpq, ← List.cons_append, ← List.cons_append, ← hd]
    simp
  have := cutComment_mark (List.cons.inj hcut).2.symm
  simp [hk] at this

end ScenarioForest
