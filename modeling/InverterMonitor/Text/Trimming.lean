import InverterMonitor.Text.Bytes
import Mathlib.Data.List.Induction

/-!
# Trimming by a class of bytes

What `trimBy p` takes off, and how the trimmed forms of two classes compare.

* `exists_trimBy`, `trimBy_padded`: bytes of the class at both ends, no more;
* `trimBy_around`: such bytes around a text do not change its trimmed form;
* `trimBy_append`: trimming two parts leaves the first one's end.
-/

namespace Text

/-- Only bytes of the class. -/
def AllBy (p : Byte → Bool) (s : Bytes) : Prop := ∀ b ∈ s, p b = true

/-- No byte of the class begins or ends the text. -/
def TrimmedBy (p : Byte → Bool) (s : Bytes) : Prop :=
  Stops p s ∧ ∀ h : s ≠ [], p (s.getLast h) = false

variable {p q : Byte → Bool}

@[simp] theorem allBy_nil : AllBy p [] := nofun

@[simp] theorem allBy_append {s t : Bytes} : AllBy p (s ++ t) ↔ AllBy p s ∧ AllBy p t :=
  List.forall_mem_append

theorem AllBy.mono (hpq : ∀ b, p b = true → q b = true) {s : Bytes} (h : AllBy p s) : AllBy q s :=
  fun b hb => hpq b (h b hb)

theorem exists_trimBy (p : Byte → Bool) (s : Bytes) :
    ∃ before after, AllBy p before ∧ AllBy p after ∧ s = before ++ (trimBy p s ++ after) ∧
      TrimmedBy p (trimBy p s) := by
  have hsplit : trimBy p s ++ (s.dropWhile p).rtakeWhile p = s.dropWhile p :=
    List.rdropWhile_append_rtakeWhile
  have hstops := stops_dropWhile p s
  refine ⟨s.takeWhile p, (s.dropWhile p).rtakeWhile p, takeWhile_all p s,
    fun b hb => List.mem_rtakeWhile_imp hb, ?_, ?_, ?_⟩
  · rw [hsplit]
    exact List.takeWhile_append_dropWhile.symm
  · intro b hb
    apply hstops b
    rw [← hsplit, List.head?_append, hb]
    rfl
  · intro hne
    exact Bool.eq_false_iff.mpr (List.rdropWhile_last_not p (s.dropWhile p) hne)

theorem rdropWhile_padded {text after : Bytes} (hafter : AllBy p after)
    (htext : TrimmedBy p text) : (text ++ after).rdropWhile p = text := by
  induction after using List.reverseRecOn with
  | nil =>
    rw [List.append_nil, List.rdropWhile_eq_self_iff]
    intro hne
    simp [htext.2 hne]
  | append_singleton after b ih =>
    rw [allBy_append] at hafter
    rw [← List.append_assoc, List.rdropWhile_concat_pos _ _ _ (hafter.2 b (by simp))]
    exact ih hafter.1

theorem trimBy_padded {before text after : Bytes} (hbefore : AllBy p before)
    (hafter : AllBy p after) (htext : TrimmedBy p text) :
    trimBy p (before ++ (text ++ after)) = text := by
  unfold trimBy
  rw [List.dropWhile_append_of_pos hbefore]
  cases text with
  | nil =>
    rw [List.nil_append, List.dropWhile_eq_nil_iff.mpr hafter]
    rfl
  | cons b text =>
    have hstops : Stops p (b :: text ++ after) := by simpa using htext.1
    rw [dropWhile_of_stops hstops, rdropWhile_padded hafter htext]

/-- Bytes of the class around a text do not change its trimmed form. -/
theorem trimBy_around {before after : Bytes} (s : Bytes) (hbefore : AllBy p before)
    (hafter : AllBy p after) : trimBy p (before ++ (s ++ after)) = trimBy p s := by
  obtain ⟨gap, gap', hgap, hgap', heq, htrimmed⟩ := exists_trimBy p s
  have hs : before ++ (s ++ after) = (before ++ gap) ++ (trimBy p s ++ (gap' ++ after)) := by
    conv_lhs => rw [heq]
    simp only [List.append_assoc]
  rw [hs]
  exact trimBy_padded (by simp [hbefore, hgap]) (by simp [hafter, hgap']) htrimmed

theorem trimBy_of_trimmedBy {s : Bytes} (h : TrimmedBy p s) : trimBy p s = s := by
  simpa using trimBy_padded allBy_nil allBy_nil h

/-- A larger class trims the same after a smaller one. -/
theorem trimBy_trimBy (hpq : ∀ b, p b = true → q b = true) (s : Bytes) :
    trimBy q (trimBy p s) = trimBy q s := by
  obtain ⟨before, after, hbefore, hafter, heq, _⟩ := exists_trimBy p s
  conv_rhs => rw [heq]
  exact (trimBy_around _ (hbefore.mono hpq) (hafter.mono hpq)).symm

theorem trimBy_eq_nil_iff {s : Bytes} : trimBy p s = [] ↔ AllBy p s := by
  constructor
  · intro h
    obtain ⟨before, after, hbefore, hafter, heq, _⟩ := exists_trimBy p s
    rw [heq, h]
    simp [hbefore, hafter]
  · intro h
    have hnil := @trimBy_around p s [] [] h allBy_nil
    rw [List.append_nil, List.append_nil] at hnil
    exact hnil

/-- Trimming does not reach into the first of two parts while the second is not all of
the class. -/
theorem trimBy_append {before s t : Bytes} (hbefore : AllBy p before) (hs : Stops p s)
    (hne : s ≠ []) (ht : ¬AllBy p t) :
    ∃ t', trimBy p (before ++ (s ++ t)) = s ++ t' ∧ trimBy p t' = trimBy p t := by
  obtain ⟨gap, after, hgap, hafter, heq, htrimmed⟩ := exists_trimBy p t
  have htrim : trimBy p t ≠ [] := fun h => ht (trimBy_eq_nil_iff.mp h)
  have hcore : TrimmedBy p (s ++ (gap ++ trimBy p t)) := by
    refine ⟨fun b hb => hs b ?_, fun h => ?_⟩
    · rwa [List.head?_append_of_ne_nil _ hne] at hb
    · rw [List.getLast_append_of_ne_nil _ (by simp [htrim]),
        List.getLast_append_of_ne_nil _ htrim]
      exact htrimmed.2 htrim
  refine ⟨gap ++ trimBy p t, ?_, ?_⟩
  · have hs' : before ++ (s ++ t) = before ++ ((s ++ (gap ++ trimBy p t)) ++ after) := by
      conv_lhs => rw [heq]
      simp only [List.append_assoc]
    rw [hs']
    exact trimBy_padded hbefore hafter hcore
  · have h := trimBy_padded hgap allBy_nil htrimmed
    rwa [List.append_nil] at h

end Text
