import InverterMonitor.Cxx.Scans

/-!
# Two arguments of a line

A line is trimmed, cut at its first blank, and both parts are trimmed; `p` is the
class of bytes that count as white space.

* `trimBy_named`: the arguments behind a name.

Two readers may differ in the class:

* `argumentsBy_of_none`: the larger class finds no arguments where the smaller
  one finds none;
* `argumentsBy_of_some`: it trims the arguments further, unless the first one is
  nothing but white space, which it takes off with the blank behind it.
-/

namespace Cxx
open Text

/-- The two arguments of a text, neither of them empty. -/
def argumentsBy (p : Byte → Bool) (s : Bytes) : Option (Bytes × Bytes) :=
  match cutAt ' ' (trimBy p s) with
  | none => none
  | some (first, second) =>
    if trimBy p first = [] ∨ trimBy p second = [] then none
    else some (trimBy p first, trimBy p second)

variable {p q : Byte → Bool}

theorem cutAt_eq_none_iff {c : Byte} {s : Bytes} : cutAt c s = none ↔ c ∉ s := by
  unfold cutAt
  split
  · next h => simp [h]
  · next h => simp [h]

/-- Only the trimmed text matters. -/
theorem argumentsBy_congr {s t : Bytes} (h : trimBy p s = trimBy p t) :
    argumentsBy p s = argumentsBy p t := by
  unfold argumentsBy
  rw [h]

theorem mem_of_mem_trimBy {s : Bytes} {b : Byte} (h : b ∈ trimBy p s) : b ∈ s := by
  obtain ⟨before, after, _, _, heq, _⟩ := exists_trimBy p s
  rw [heq]
  simp [h]

/-- A text cut at a byte of the class, so that no part of the trimmed text is empty. -/
theorem cut_trimmed {s first second : Bytes} (hp : p ' ' = true)
    (hcut : cutAt ' ' (trimBy p s) = some (first, second)) :
    trimBy p first ≠ [] ∧ trimBy p second ≠ [] := by
  obtain ⟨_, htrim⟩ := cutAt_eq_some_iff.mp hcut
  obtain ⟨_, _, _, _, _, hstops, hlast⟩ := exists_trimBy p s
  constructor
  · intro hnil
    -- the trimmed text would begin with a byte of the class
    have hall := trimBy_eq_nil_iff.mp hnil
    obtain ⟨b, rest, hb, hmem⟩ : ∃ b rest, trimBy p s = b :: rest ∧ p b = true := by
      cases first with
      | nil => exact ⟨' ', second, htrim, hp⟩
      | cons b first => exact ⟨b, _, htrim, hall b (by simp)⟩
    have hfalse := hstops b (by simp [hb])
    rw [hmem] at hfalse
    cases hfalse
  · intro hnil
    have hall := trimBy_eq_nil_iff.mp hnil
    have hne : trimBy p s ≠ [] := by simp [htrim]
    have hmem : (trimBy p s).getLast hne = ' ' ∨ (trimBy p s).getLast hne ∈ second := by
      have hlast' : (trimBy p s).getLast hne ∈ (' ' : Byte) :: second := by
        have hsplit : (trimBy p s).getLast hne = (first ++ (' ' : Byte) :: second).getLast
          (by simp) := by simp only [htrim]
        rw [hsplit, List.getLast_append_of_ne_nil _ (by simp)]
        exact List.getLast_mem _
      simpa using hlast'
    have hfalse := hlast hne
    rcases hmem with heq | hmem
    · rw [heq, hp] at hfalse
      cases hfalse
    · rw [hall _ hmem] at hfalse
      cases hfalse

/-- The arguments are the trimmed parts. -/
theorem argumentsBy_eq_some_iff (hp : p ' ' = true) {s a b : Bytes} :
    argumentsBy p s = some (a, b) ↔ ∃ first second,
      cutAt ' ' (trimBy p s) = some (first, second) ∧ trimBy p first = a ∧
        trimBy p second = b := by
  unfold argumentsBy
  constructor
  · intro h
    split at h
    · cases h
    · next first second hcut =>
      split at h
      · cases h
      · cases h
        exact ⟨first, second, hcut, rfl, rfl⟩
  · rintro ⟨first, second, hcut, rfl, rfl⟩
    obtain ⟨hfirst, hsecond⟩ := cut_trimmed hp hcut
    simp [hcut, hfirst, hsecond]

theorem argumentsBy_eq_none_iff (hp : p ' ' = true) {s : Bytes} :
    argumentsBy p s = none ↔ (' ' : Byte) ∉ trimBy p s := by
  rw [← cutAt_eq_none_iff]
  unfold argumentsBy
  cases hcut : cutAt ' ' (trimBy p s) with
  | none => simp
  | some parts =>
    obtain ⟨hfirst, hsecond⟩ := cut_trimmed hp hcut
    simp [hfirst, hsecond]

/-- The arguments are parts of the text, and neither is empty. -/
theorem argumentsBy_parts {s a b : Bytes} (h : argumentsBy p s = some (a, b)) :
    (∀ c ∈ a, c ∈ s) ∧ (∀ c ∈ b, c ∈ s) ∧ a ≠ [] ∧ b ≠ [] := by
  unfold argumentsBy at h
  split at h
  · cases h
  · next first second hcut =>
    split at h
    · cases h
    · next hne =>
      cases h
      rw [not_or] at hne
      obtain ⟨_, hs⟩ := cutAt_eq_some_iff.mp hcut
      have hparts (c : Byte) (hc : c ∈ first ∨ c ∈ second) : c ∈ s := by
        apply @mem_of_mem_trimBy p
        rw [hs]
        rcases hc with hc | hc <;> simp [hc]
      exact ⟨fun c hc => hparts c (Or.inl (mem_of_mem_trimBy hc)),
        fun c hc => hparts c (Or.inr (mem_of_mem_trimBy hc)), hne.1, hne.2⟩

theorem argumentsBy_trimmed {s a b : Bytes} (h : argumentsBy p s = some (a, b)) :
    TrimmedBy p a ∧ TrimmedBy p b := by
  have htrimmed (t : Bytes) : TrimmedBy p (trimBy p t) := by
    obtain ⟨_, _, _, _, _, htrimmed⟩ := exists_trimBy p t
    exact htrimmed
  unfold argumentsBy at h
  split at h
  · cases h
  · split at h
    · cases h
    · cases h
      exact ⟨htrimmed _, htrimmed _⟩

/-- A name without white space, a blank and a text: trimmed, it is the name alone, or the
arguments of what follows the blank are those of the text. -/
theorem trimBy_named {name : Bytes} (rest : Bytes) (hp : p ' ' = true) (hne : name ≠ [])
    (hwhole : name.any p = false) :
    (trimBy p (name ++ (' ' : Byte) :: rest) = name ∧ argumentsBy p name = none ∧
      argumentsBy p rest = none) ∨
    ∃ rest', trimBy p (name ++ (' ' : Byte) :: rest) = name ++ (' ' : Byte) :: rest' ∧
      argumentsBy p rest' = argumentsBy p rest := by
  have hname : ∀ b ∈ name, p b = false := by simpa using hwhole
  by_cases hrest : AllBy p rest
  · left
    have hspaces : AllBy p ((' ' : Byte) :: rest) := by
      simpa [AllBy] using And.intro hp hrest
    have htrimmed : TrimmedBy p name :=
      ⟨fun b hb => hname b (List.mem_of_mem_head? hb), fun h => hname _ (List.getLast_mem h)⟩
    have hpadded := trimBy_padded allBy_nil hspaces htrimmed
    rw [List.nil_append] at hpadded
    refine ⟨hpadded, (argumentsBy_eq_none_iff hp).mpr fun hmem => ?_,
      (argumentsBy_eq_none_iff hp).mpr ?_⟩
    · have hfalse := hname _ (mem_of_mem_trimBy hmem)
      rw [hp] at hfalse
      cases hfalse
    · rw [trimBy_eq_nil_iff.mpr hrest]
      exact List.not_mem_nil
  · right
    have hstops : Stops p (name ++ [(' ' : Byte)]) := by
      intro b hb
      rw [List.head?_append_of_ne_nil _ hne] at hb
      exact hname b (List.mem_of_mem_head? hb)
    have hline : name ++ (' ' : Byte) :: rest = (name ++ [(' ' : Byte)]) ++ rest := by simp
    obtain ⟨rest', htrim, hrest'⟩ := trimBy_append allBy_nil hstops (by simp) hrest
    rw [List.nil_append, ← hline] at htrim
    refine ⟨rest', ?_, argumentsBy_congr hrest'⟩
    rw [htrim, List.append_assoc]
    rfl

section

variable (hpq : ∀ b, p b = true → q b = true) (hp : p ' ' = true)

include hpq hp

theorem argumentsBy_of_none {s : Bytes} (h : argumentsBy p s = none) : argumentsBy q s = none := by
  rw [argumentsBy_eq_none_iff hp] at h
  rw [argumentsBy_eq_none_iff (hpq _ hp), ← trimBy_trimBy hpq s]
  exact fun hmem => h (mem_of_mem_trimBy hmem)

theorem argumentsBy_of_some {s a b : Bytes} (h : argumentsBy p s = some (a, b)) :
    argumentsBy q s =
      if trimBy q a = [] then argumentsBy q b
      else if trimBy q b = [] then none else some (trimBy q a, trimBy q b) := by
  obtain ⟨first, second, hcut, rfl, rfl⟩ := (argumentsBy_eq_some_iff hp).mp h
  obtain ⟨hblank, htrim⟩ := cutAt_eq_some_iff.mp hcut
  rw [trimBy_trimBy hpq, trimBy_trimBy hpq]
  have hs : trimBy q s = trimBy q (first ++ (' ' : Byte) :: second) := by
    rw [← htrim, trimBy_trimBy hpq]
  split
  · next hfirst =>
    have hspaces : AllBy q (first ++ [(' ' : Byte)]) := by
      simp only [allBy_append]
      exact ⟨trimBy_eq_nil_iff.mp hfirst, by simpa [AllBy] using hpq _ hp⟩
    refine argumentsBy_congr ?_
    have haround := trimBy_around second hspaces allBy_nil
    rw [List.append_nil, List.append_assoc] at haround
    rw [hs, trimBy_trimBy hpq]
    exact haround
  · next hfirst =>
    obtain ⟨before, after, hbefore, hafter, heq, hcore⟩ := exists_trimBy q first
    split
    · next hsecond =>
      rw [argumentsBy_eq_none_iff (hpq _ hp), hs]
      have hspaces : AllBy q ((' ' : Byte) :: second) := by
        have hall := trimBy_eq_nil_iff.mp hsecond
        simpa [AllBy] using And.intro (hpq _ hp) hall
      have haround := trimBy_around first allBy_nil hspaces
      rw [List.nil_append] at haround
      rw [haround]
      exact fun hmem => hblank (mem_of_mem_trimBy hmem)
    · next hsecond =>
      have hstops : Stops q (trimBy q first ++ (after ++ [(' ' : Byte)])) := by
        obtain ⟨c, core, hc⟩ := List.exists_cons_of_ne_nil hfirst
        have hcore' := hcore.1
        rw [hc] at hcore' ⊢
        simpa using hcore'
      obtain ⟨t', ht', hsecond'⟩ := trimBy_append hbefore hstops (by simp) fun hall =>
        hsecond (trimBy_eq_nil_iff.mpr hall)
      have hparts : first ++ (' ' : Byte) :: second =
          before ++ ((trimBy q first ++ (after ++ [(' ' : Byte)])) ++ second) := by
        conv_lhs => rw [heq]
        simp only [List.append_assoc, List.cons_append, List.nil_append]
      rw [hparts] at hs
      rw [argumentsBy_eq_some_iff (hpq _ hp)]
      refine ⟨trimBy q first ++ after, t', ?_, ?_, hsecond'⟩
      · rw [hs, ht', cutAt_eq_some_iff]
        refine ⟨fun hmem => hblank ?_, by simp only [List.append_assoc, List.cons_append,
          List.nil_append]⟩
        rw [heq]
        exact List.mem_append_right before hmem
      · have haround := trimBy_around (trimBy q first) allBy_nil hafter
        rw [List.nil_append] at haround
        rw [haround, trimBy_trimBy fun _ h => h]

end

end Cxx
