import InverterMonitor.Cxx.FixedPoint
import InverterMonitor.Cxx.Scans
import InverterMonitor.Firmware.Configuration

/-!
# IP addresses in decimal

`parseIpAddress` of `inverter.ino` with its accumulator and the buffer that it writes.

* `ipParts_iff`: the loop passes groups of digits with single dots between them;
* `parseIpAddressTo_eq`: so the buffer is written with what `SETIP` stores, or not at all;
* `parseIpAddressTo_exact`: the accepted texts are the dotted quads of at most 15
  characters, and what is written is such a text in its shortest form.
-/

namespace InverterMonitor.Firmware
open Text Cxx

/-! ## The loop and the buffer -/

/-- The variables of the loop: the finished parts, the value of the part that is read, and
whether it has a digit. -/
structure IpState where
  parts : List Nat := []
  value : UInt32 := 0
  hasDigit : Bool := false

def ipStep (st : IpState) (c : Byte) : Option IpState :=
  if isDigit c then
    let value := st.value * 10 + (c - '0').toUInt32
    if 255 < value then none else some { st with value := value, hasDigit := true }
  else if c = '.' then
    if st.hasDigit = false ∨ 3 ≤ st.parts.length then none
    else some { parts := st.parts ++ [st.value.toNat] }
  else none

/-- `snprintf` into a buffer: what fits of the text with a terminator, and the length of the
whole text. -/
def snprintfTo (dest : Bytes) (size : Nat) (text : Bytes) : Bytes × Nat :=
  let written := text.take (size - 1) ++ [0]
  (written ++ dest.drop written.length, text.length)

def parseIpAddressTo (ipText dest : Bytes) (maxLen : Nat) : Bool × Bytes :=
  if ipText.length = 0 ∨ maxLen < ipText.length then (false, dest)
  else
    match ipText.foldlM ipStep {} with
    | none => (false, dest)
    | some st =>
      if st.hasDigit = false ∨ st.parts.length ≠ 3 then (false, dest)
      else
        let (dest, len) := snprintfTo dest (maxLen + 1) (dotted (st.parts ++ [st.value.toNat]))
        (0 < len && len ≤ maxLen, dest)

/-! ## Groups of digits -/

structure IsGroup (g : Bytes) (n : Nat) : Prop where
  digits : Digits g
  nonempty : g ≠ []
  value : numeralValue g = n
  small : n ≤ 255

/-- Groups with single dots between them. -/
inductive Groups : Bytes → List Nat → Prop
  | last {g : Bytes} {n : Nat} (hg : IsGroup g n) : Groups g [n]
  | more {g s : Bytes} {n : Nat} {ns : List Nat} (hg : IsGroup g n) (hs : Groups s ns) :
      Groups (g ++ ('.' : Byte) :: s) (n :: ns)

/-- Four numbers in decimal. -/
structure IsDottedQuad (s : Bytes) (ns : List Nat) : Prop where
  groups : Groups s ns
  four : ns.length = 4

theorem dot_not_mem_digits {g : Bytes} (hg : Digits g) : ('.' : Byte) ∉ g :=
  fun hmem => absurd (hg _ hmem) (by decide)

theorem Groups.ne_nil {s : Bytes} {ns : List Nat} (h : Groups s ns) : ns ≠ [] := by
  cases h <;> exact List.cons_ne_nil _ _

theorem Groups.bytes {s : Bytes} {ns : List Nat} (h : Groups s ns) :
    ∀ b ∈ s, isDigit b = true ∨ b = '.' := by
  induction h with
  | last hg => exact fun b hb => Or.inl (hg.digits b hb)
  | more hg _ ih =>
    intro b hb
    rcases List.mem_append.mp hb with hb | hb
    · exact Or.inl (hg.digits b hb)
    · rcases List.mem_cons.mp hb with rfl | hb
      · exact Or.inr rfl
      · exact ih b hb

theorem groups_digits_iff {g : Bytes} (hg : Digits g) {ns : List Nat} :
    Groups g ns ↔ ∃ n, IsGroup g n ∧ ns = [n] := by
  constructor
  · intro h
    cases h with
    | last hgroup => exact ⟨_, hgroup, rfl⟩
    | more hgroup hs => exact absurd (by simp) (dot_not_mem_digits hg)
  · rintro ⟨n, hgroup, rfl⟩
    exact .last hgroup

theorem groups_dot_iff {g s : Bytes} (hg : Digits g) {ns : List Nat} :
    Groups (g ++ ('.' : Byte) :: s) ns ↔
      ∃ n ns', IsGroup g n ∧ Groups s ns' ∧ ns = n :: ns' := by
  constructor
  · generalize htext : g ++ ('.' : Byte) :: s = text
    intro h
    cases h with
    | last hgroup =>
      rw [← htext] at hgroup
      exact absurd (by simp) (dot_not_mem_digits hgroup.digits)
    | more hgroup hs =>
      obtain ⟨rfl, rfl⟩ := cut_unique (dot_not_mem_digits hg) (dot_not_mem_digits hgroup.digits)
        htext
      exact ⟨_, _, hgroup, hs, rfl⟩
  · rintro ⟨n, ns', hgroup, hs, rfl⟩
    exact .more hgroup hs

/-- A group does not get smaller by more digits. -/
theorem numeralValue_le_append (g s : Bytes) : numeralValue g ≤ numeralValue (g ++ s) := by
  rw [numeralValue_append]
  exact Nat.le_add_right_of_le (Nat.le_mul_of_pos_right _ (Nat.pow_pos (by decide)))

/-- The digits at the start of a text belong to its first group. -/
theorem Groups.first_small {g s : Bytes} (hg : Digits g) {ns : List Nat}
    (h : Groups (g ++ s) ns) : numeralValue g ≤ 255 := by
  have hgroup : ∀ {g' n}, IsGroup g' n → g <+: g' → numeralValue g ≤ 255 := by
    rintro _ n hgroup ⟨ds, rfl⟩
    rw [← hgroup.value] at hgroup
    exact (numeralValue_le_append g ds).trans hgroup.small
  generalize htext : g ++ s = text at h
  cases h with
  | last hfirst => exact hgroup hfirst ⟨s, htext⟩
  | more hfirst hs =>
    rcases List.append_eq_append_iff.mp htext with ⟨ds, hds, -⟩ | ⟨ds, rfl, hds⟩
    · exact hgroup hfirst ⟨ds, hds.symm⟩
    · cases ds with
      | nil => exact hgroup hfirst (by simp)
      | cons b ds =>
        obtain ⟨rfl, -⟩ := List.cons.inj hds
        exact absurd (by simp) (dot_not_mem_digits hg)

/-- The loop behind the digits `g` of a group passes groups only. -/
theorem ipParts_iff {g : Bytes} (hg : Digits g) (hsmall : numeralValue g ≤ 255) (s : Bytes)
    {parts : List Nat} (hparts : parts.length ≤ 3) {parts' : List Nat} {value : Nat} :
    ipParts s parts (numeralValue g) (decide (g ≠ [])) = some (parts', value, true) ↔
      ∃ ns, Groups (g ++ s) ns ∧ parts' ++ [value] = parts ++ ns ∧
        (parts ++ ns).length ≤ 4 := by
  induction s generalizing g parts with
  | nil =>
    rw [List.append_nil, ipParts]
    simp only [groups_digits_iff hg]
    constructor
    · intro h
      obtain ⟨rfl, rfl, hne⟩ : parts = parts' ∧ numeralValue g = value ∧ g ≠ [] := by simpa using h
      refine ⟨_, ⟨_, ⟨hg, hne, rfl, hsmall⟩, rfl⟩, rfl, ?_⟩
      rw [List.length_append, List.length_singleton]
      omega
    · rintro ⟨_, ⟨n, hgroup, rfl⟩, heq, -⟩
      obtain ⟨rfl, hvalue⟩ := List.append_inj' heq rfl
      cases hvalue
      simp [hgroup.nonempty, hgroup.value]
  | cons c s ih =>
    rw [ipParts]
    by_cases hdigit : isDigit c = true
    · have happend : g ++ c :: s = (g ++ [c]) ++ s := by simp
      have hdigits : Digits (g ++ [c]) := by
        intro b hb
        rcases List.mem_append.mp hb with hb | hb
        · exact hg b hb
        · rwa [List.mem_singleton.mp hb]
      rw [if_pos hdigit, happend, ← numeralValue_concat]
      simp only
      by_cases hbig : 255 < numeralValue (g ++ [c])
      · rw [if_pos hbig]
        refine iff_of_false (Option.some_ne_none _ ∘ Eq.symm) ?_
        rintro ⟨ns, hgroups, -⟩
        exact absurd (hgroups.first_small hdigits) (Nat.not_le.mpr hbig)
      · have hrest := @ih (g ++ [c]) hdigits (Nat.not_lt.mp hbig) parts hparts
        rw [if_neg hbig]
        simpa using hrest
    · rw [if_neg hdigit]
      by_cases hdot : c = '.'
      · rw [if_pos hdot, hdot]
        simp only [groups_dot_iff hg]
        by_cases hstop : decide (g ≠ []) = false ∨ 3 ≤ parts.length
        · rw [if_pos hstop]
          refine iff_of_false (Option.some_ne_none _ ∘ Eq.symm) ?_
          rintro ⟨_, ⟨n, ns, hgroup, hs, rfl⟩, -, hlength⟩
          have hpositive := List.length_pos_of_ne_nil hs.ne_nil
          rw [List.length_append, List.length_cons] at hlength
          rcases hstop with hnil | hfull
          · exact hgroup.nonempty (by simpa using hnil)
          · omega
        · rw [if_neg hstop]
          rw [not_or, Nat.not_le] at hstop
          have hne : g ≠ [] := by simpa using hstop.1
          have hrest := @ih [] (by simp [Digits]) (by decide) (parts ++ [numeralValue g])
            (by rw [List.length_append, List.length_singleton]; omega)
          refine Iff.trans hrest ?_
          constructor
          · rintro ⟨ns, hs, heq, hlength⟩
            exact ⟨_, ⟨_, ns, ⟨hg, hne, rfl, hsmall⟩, hs, rfl⟩, by simpa using heq,
              by simpa using hlength⟩
          · rintro ⟨_, ⟨n, ns, hgroup, hs, rfl⟩, heq, hlength⟩
            rw [← hgroup.value] at heq hlength
            exact ⟨ns, hs, by simpa using heq, by simpa using hlength⟩
      · rw [if_neg hdot]
        refine iff_of_false (Option.some_ne_none _ ∘ Eq.symm) ?_
        rintro ⟨ns, hgroups, -⟩
        rcases hgroups.bytes c (by simp) with hc | hc
        · exact hdigit hc
        · exact hdot hc

theorem ipParts_quad_iff {s : Bytes} {parts : List Nat} {value : Nat} :
    ipParts s [] 0 false = some (parts, value, true) ∧ parts.length = 3 ↔
      IsDottedQuad s (parts ++ [value]) := by
  have hgroups := @ipParts_iff [] (by simp [Digits]) (by decide) s [] (by decide) parts value
  constructor
  · rintro ⟨hparts, hlength⟩
    obtain ⟨ns, hs, rfl, -⟩ := hgroups.mp hparts
    exact ⟨hs, by rw [List.length_append, hlength]; rfl⟩
  · rintro ⟨hs, hfour⟩
    refine ⟨hgroups.mpr ⟨_, hs, rfl, Nat.le_of_eq hfour⟩, ?_⟩
    rw [List.length_append, List.length_singleton] at hfour
    omega

/-! ## The shortest form -/

theorem Groups.small {s : Bytes} {ns : List Nat} (h : Groups s ns) : ∀ n ∈ ns, n ≤ 255 := by
  induction h with
  | last hg => simpa using hg.small
  | more hg _ ih => exact List.forall_mem_cons.mpr ⟨hg.small, ih⟩

theorem isGroup_decimal {n : Nat} (hn : n ≤ 255) : IsGroup (decimal n) n :=
  ⟨decimal_digits n, decimal_ne_nil n, numeralValue_decimal n, hn⟩

theorem groups_dotted {ns : List Nat} (hne : ns ≠ []) (hsmall : ∀ n ∈ ns, n ≤ 255) :
    Groups (dotted ns) ns := by
  induction ns with
  | nil => exact absurd rfl hne
  | cons n ns ih =>
    obtain ⟨hn, hns⟩ := List.forall_mem_cons.mp hsmall
    cases ns with
    | nil => exact .last (isGroup_decimal hn)
    | cons m ns => exact .more (isGroup_decimal hn) (ih (List.cons_ne_nil m ns) hns)

/-- Three digits for a number, and a dot in front of each but the first. -/
theorem length_dotted_lt {ns : List Nat} (hne : ns ≠ []) (hsmall : ∀ n ∈ ns, n ≤ 255) :
    (dotted ns).length < 4 * ns.length := by
  induction ns with
  | nil => exact absurd rfl hne
  | cons n ns ih =>
    obtain ⟨hn, hns⟩ := List.forall_mem_cons.mp hsmall
    have hdecimal := length_decimal_le (n := n) (k := 3) (by decide) (by omega)
    cases ns with
    | nil =>
      rw [dotted, List.length_singleton]
      omega
    | cons m ns =>
      have hrest := ih (List.cons_ne_nil m ns) hns
      rw [dotted, List.length_append, List.length_cons, List.length_cons]
      omega

theorem IsDottedQuad.dotted {s : Bytes} {ns : List Nat} (h : IsDottedQuad s ns) :
    IsDottedQuad (dotted ns) ns :=
  ⟨groups_dotted h.groups.ne_nil h.groups.small, h.four⟩

theorem IsDottedQuad.length_dotted_le {s : Bytes} {ns : List Nat} (h : IsDottedQuad s ns) :
    (Firmware.dotted ns).length ≤ 15 := by
  have hlength := length_dotted_lt h.groups.ne_nil h.groups.small
  rw [h.four] at hlength
  omega

/-! ## What is accepted -/

theorem parseIpAddress_eq_some_iff {s text : Bytes} :
    parseIpAddress s = some text ↔
      s.length ≤ relayIpAddressMaxLen ∧ ∃ ns, IsDottedQuad s ns ∧ text = dotted ns := by
  constructor
  · intro h
    simp only [parseIpAddress] at h
    split at h
    · cases h
    · next hlength =>
      obtain ⟨⟨parts, value, hasDigit⟩, hparts, h⟩ := Option.bind_eq_some_iff.mp h
      simp only at h
      split at h
      · cases h
      · next hthree =>
        rw [not_or, not_not, Bool.not_eq_false] at hthree
        obtain ⟨rfl, hthree⟩ := hthree
        split at h
        · cases h
          exact ⟨Nat.not_lt.mp (not_or.mp hlength).2, _, ipParts_quad_iff.mp ⟨hparts, hthree⟩, rfl⟩
        · cases h
  · rintro ⟨hlength, ns, hquad, rfl⟩
    have hne : s ≠ [] := by
      rintro rfl
      obtain ⟨n, hgroup, -⟩ := (groups_digits_iff (g := []) (by simp [Digits])).mp hquad.groups
      exact hgroup.nonempty rfl
    obtain ⟨parts, value, rfl⟩ : ∃ parts value, ns = parts ++ [value] :=
      ⟨_, _, (List.dropLast_append_getLast hquad.groups.ne_nil).symm⟩
    obtain ⟨hparts, hthree⟩ := ipParts_quad_iff.mpr hquad
    simp only [parseIpAddress, hne, Nat.not_lt.mpr hlength, or_self, ↓reduceIte, hparts,
      Option.bind_eq_bind, Option.bind_some, hthree, Bool.true_eq_false, ne_eq, not_true_eq_false]
    exact if_pos hquad.length_dotted_le

theorem toNat_accumulate {value : UInt32} (hvalue : value ≤ 255) {c : Byte}
    (hc : isDigit c = true) :
    (value * 10 + (c - '0').toUInt32).toNat = value.toNat * 10 + digitValue c := by
  have hzero : ('0' : Byte) = 48 := by decide
  simp only [isDigit, Bool.and_eq_true, decide_eq_true_eq] at hc
  have hdigit : (c - '0').toUInt32.toNat = digitValue c := by
    rw [UInt8.toNat_toUInt32, hzero, UInt8.toNat_sub_of_le _ _ hc.1]
    rfl
  have hsmall : value.toNat ≤ 255 := UInt32.le_iff_toNat_le.mp hvalue
  have hnine : digitValue c ≤ 9 := by
    have := UInt8.le_iff_toNat_le.mp hc.2
    change c.toNat ≤ 57 at this
    unfold digitValue
    omega
  rw [UInt32.toNat_add, UInt32.toNat_mul, hdigit]
  change (value.toNat * 10 % 2 ^ 32 + digitValue c) % 2 ^ 32 = _
  omega

/-- The accumulator holds at most 255 between two characters, so it does not overflow. -/
theorem foldlM_ipStep (s : Bytes) {st : IpState} (h : st.value ≤ 255) :
    (s.foldlM ipStep st).map (fun st => (st.parts, st.value.toNat, st.hasDigit)) =
      ipParts s st.parts st.value.toNat st.hasDigit := by
  induction s generalizing st with
  | nil => rfl
  | cons c s ih =>
    rw [List.foldlM_cons, ipParts, ipStep]
    by_cases hdigit : isDigit c = true
    · have hvalue := toNat_accumulate h hdigit
      have hlt : 255 < st.value * 10 + (c - '0').toUInt32 ↔
          255 < st.value.toNat * 10 + digitValue c := by
        rw [UInt32.lt_iff_toNat_lt, hvalue]
        rfl
      simp only [if_pos hdigit, hlt, ← hvalue]
      by_cases hbig : 255 < (st.value * 10 + (c - '0').toUInt32).toNat
      · rw [if_pos hbig, if_pos hbig]
        rfl
      · rw [if_neg hbig, if_neg hbig]
        have hsmall : st.value * 10 + (c - '0').toUInt32 ≤ 255 :=
          UInt32.le_iff_toNat_le.mpr (Nat.not_lt.mp hbig)
        exact @ih { st with value := st.value * 10 + (c - '0').toUInt32, hasDigit := true } hsmall
    · rw [if_neg hdigit, if_neg hdigit]
      by_cases hdot : c = '.'
      · rw [if_pos hdot, if_pos hdot]
        by_cases hstop : st.hasDigit = false ∨ 3 ≤ st.parts.length
        · rw [if_pos hstop, if_pos hstop]
          rfl
        · rw [if_neg hstop, if_neg hstop]
          have hzero : (0 : UInt32) ≤ 255 := by decide
          exact @ih { parts := st.parts ++ [st.value.toNat] } hzero
      · rw [if_neg hdot, if_neg hdot]
        rfl

/-- A text that fits is written whole. -/
theorem snprintfTo_of_le (dest : Bytes) {size : Nat} {text : Bytes} (h : text.length ≤ size) :
    snprintfTo dest (size + 1) text =
      (text ++ (0 : Byte) :: dest.drop (text.length + 1), text.length) := by
  simp [snprintfTo, List.take_of_length_le h]

/-- The buffer is written with the text that is accepted and a terminator, or not at all. -/
theorem parseIpAddressTo_eq (s dest : Bytes) :
    parseIpAddressTo s dest relayIpAddressMaxLen = (parseIpAddress s).elim (false, dest)
      fun text => (true, text ++ (0 : Byte) :: dest.drop (text.length + 1)) := by
  have hloop := @foldlM_ipStep s {} (by decide)
  have hzero : (({} : IpState).value).toNat = 0 := rfl
  rw [hzero] at hloop
  simp only [parseIpAddressTo, parseIpAddress, List.length_eq_zero_iff, ← hloop]
  by_cases hstop : s = [] ∨ relayIpAddressMaxLen < s.length
  · simp only [if_pos hstop, Option.elim_none]
  · simp only [if_neg hstop]
    cases hfold : s.foldlM ipStep {} with
    | none => rfl
    | some st =>
      simp only [Option.map_some, Option.bind_eq_bind, Option.bind_some]
      by_cases hrest : st.hasDigit = false ∨ st.parts.length ≠ 3
      · simp only [if_pos hrest, Option.elim_none]
      · have hquad : IsDottedQuad s (st.parts ++ [st.value.toNat]) := by
          rw [not_or, Bool.not_eq_false, not_not] at hrest
          refine ipParts_quad_iff.mp ⟨?_, hrest.2⟩
          rw [← hrest.1, ← hloop, hfold]
          rfl
        have hlength := hquad.length_dotted_le
        have hpositive := List.length_pos_of_ne_nil (dotted_ne_nil hquad.groups.ne_nil)
        have hfits : (dotted (st.parts ++ [st.value.toNat])).length ≤ relayIpAddressMaxLen :=
          hlength
        simp only [if_neg hrest, snprintfTo_of_le dest hfits, hpositive, hfits, ↓reduceIte,
          decide_true, Bool.and_self, Option.elim_some]

/-! ## What the buffer holds -/

theorem zero_not_mem_dotted (parts : List Nat) : (0 : Byte) ∉ dotted parts := by
  intro hmem
  rcases dotted_bytes parts 0 hmem with hdigit | hdot
  · exact absurd hdigit (by decide)
  · exact absurd hdot (by decide)

theorem parseIpAddressTo_quad {s : Bytes} {ns : List Nat} (h : IsDottedQuad s ns)
    (hlength : s.length ≤ relayIpAddressMaxLen) (dest : Bytes) :
    parseIpAddressTo s dest relayIpAddressMaxLen =
      (true, dotted ns ++ (0 : Byte) :: dest.drop ((dotted ns).length + 1)) := by
  rw [parseIpAddressTo_eq, parseIpAddress_eq_some_iff.mpr ⟨hlength, ns, h, rfl⟩]
  rfl

theorem parseIpAddressTo_false {s : Bytes} (h : ¬(s.length ≤ relayIpAddressMaxLen ∧
    ∃ ns, IsDottedQuad s ns)) (dest : Bytes) :
    parseIpAddressTo s dest relayIpAddressMaxLen = (false, dest) := by
  have hnone : parseIpAddress s = none := by
    cases hparse : parseIpAddress s with
    | none => rfl
    | some text =>
      obtain ⟨hlength, ns, hquad, -⟩ := parseIpAddress_eq_some_iff.mp hparse
      exact absurd ⟨hlength, ns, hquad⟩ h
  rw [parseIpAddressTo_eq, hnone]
  rfl

/-- The accepted texts are the dotted quads of at most 15 characters. The buffer then holds the
shortest text for the same numbers, which fits and which a second parse leaves as it is, and
otherwise what it held before. -/
theorem parseIpAddressTo_exact (s dest : Bytes) :
    ((parseIpAddressTo s dest 15).1 = true ↔ s.length ≤ 15 ∧ ∃ ns, IsDottedQuad s ns) ∧
    (∀ ns, s.length ≤ 15 → IsDottedQuad s ns →
      cString (parseIpAddressTo s dest 15).2 = dotted ns ∧
      (dotted ns).length ≤ 15 ∧ IsDottedQuad (dotted ns) ns ∧
      ∀ dest', (parseIpAddressTo (dotted ns) dest' 15).1 = true ∧
        cString (parseIpAddressTo (dotted ns) dest' 15).2 = dotted ns) ∧
    ((parseIpAddressTo s dest 15).1 = false → (parseIpAddressTo s dest 15).2 = dest) ∧
    (16 ≤ dest.length → (parseIpAddressTo s dest 15).2.length = dest.length) := by
  have hwritten : ∀ {s ns}, s.length ≤ 15 → IsDottedQuad s ns → ∀ dest,
      parseIpAddressTo s dest 15 =
        (true, dotted ns ++ (0 : Byte) :: dest.drop ((dotted ns).length + 1)) :=
    fun hlength h => parseIpAddressTo_quad h hlength
  have hheld : ∀ {s ns}, s.length ≤ 15 → IsDottedQuad s ns → ∀ dest,
      (parseIpAddressTo s dest 15).1 = true ∧
        cString (parseIpAddressTo s dest 15).2 = dotted ns := by
    intro s ns hlength h dest
    rw [hwritten hlength h]
    exact ⟨rfl, cString_terminated (zero_not_mem_dotted ns) _⟩
  by_cases haccepted : s.length ≤ 15 ∧ ∃ ns, IsDottedQuad s ns
  · obtain ⟨hlength, ns, hquad⟩ := haccepted
    have htrue := (hheld hlength hquad dest).1
    refine ⟨iff_of_true htrue ⟨hlength, ns, hquad⟩, ?_, ?_, ?_⟩
    · intro ms hlength hquad
      have hfits := hquad.length_dotted_le
      exact ⟨(hheld hlength hquad dest).2, hfits, hquad.dotted, hheld hfits hquad.dotted⟩
    · intro hfalse
      exact absurd (htrue.symm.trans hfalse) (by decide)
    · intro hdest
      have hfits := hquad.length_dotted_le
      rw [hwritten hlength hquad, List.length_append, List.length_cons, List.length_drop]
      omega
  · have hunchanged : parseIpAddressTo s dest 15 = (false, dest) :=
      parseIpAddressTo_false haccepted dest
    rw [hunchanged]
    refine ⟨iff_of_false Bool.false_ne_true haccepted, ?_, fun _ => rfl, fun _ => rfl⟩
    intro ns hlength hquad
    exact absurd ⟨hlength, ns, hquad⟩ haccepted

end InverterMonitor.Firmware
