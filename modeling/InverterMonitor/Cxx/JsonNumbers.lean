import InverterMonitor.Cxx.Conversions
import InverterMonitor.Format.JsonGrammar

/-!
# Printed numbers as JSON

* `isNumber_decimal`: an integer is printed as a JSON number;
* `isNumber_formatGeneral`: and so is every finite double.
-/

namespace Cxx
open Text JsonGrammar

/-! ## Integers -/

theorem decimal_of_lt {n : Nat} (h : n < 10) : decimal n = [n.digitChar.toUInt8] := by
  rw [decimal, Nat.toDigits_of_lt_base h]
  rfl

theorem decimal_of_le {n : Nat} (h : 10 ≤ n) :
    decimal n = decimal (n / 10) ++ [(n % 10).digitChar.toUInt8] := by
  rw [decimal, Nat.toDigits_of_base_le (by decide) h, List.map_append]
  rfl

/-- There is no leading zero. -/
theorem decimal_pos {n : Nat} (h : 0 < n) :
    ∃ d ds, isDigit d = true ∧ d ≠ '0' ∧ (∀ b ∈ ds, isDigit b = true) ∧ decimal n = d :: ds := by
  induction n using Nat.strongRecOn with
  | _ n ih =>
    have hdigits := decimal_digits n
    rcases Nat.lt_or_ge n 10 with hn | hn
    · have hall : ∀ n : Fin 10, 0 < n.val → (n.val.digitChar.toUInt8 : Byte) ≠ '0' := by decide
      rw [decimal_of_lt hn] at hdigits ⊢
      exact ⟨_, [], hdigits _ (List.mem_singleton_self _), hall ⟨n, hn⟩ h, by simp, rfl⟩
    · obtain ⟨d, ds, hd, hzero, -, heq⟩ := ih (n / 10) (by omega) (by omega)
      rw [decimal_of_le hn, heq] at hdigits ⊢
      rw [List.cons_append] at hdigits ⊢
      exact ⟨d, _, hd, hzero, (List.forall_mem_cons.mp hdigits).2, rfl⟩

theorem isInt_decimal (n : Nat) : IsInt (decimal n) := by
  rcases Nat.eq_zero_or_pos n with rfl | h
  · exact .zero
  · obtain ⟨d, ds, hd, hzero, hds, heq⟩ := decimal_pos h
    rw [heq]
    exact .digits hd hzero hds

theorem isNumber_of_isInt {s : Bytes} (h : IsInt s) : IsNumber s := by
  have hnumber := IsNumber.intro (Or.inl rfl) h IsFrac.none IsExp.none
  rwa [List.nil_append, List.append_nil, List.append_nil] at hnumber

theorem isNumber_decimal (n : Nat) : IsNumber (decimal n) := isNumber_of_isInt (isInt_decimal n)

/-! ## Doubles -/

theorem isInt_take {s : Bytes} (h : IsInt s) (n : Nat) : IsInt (s.take (n + 1)) := by
  cases h with
  | zero =>
    rw [List.take_succ_cons, List.take_nil]
    exact .zero
  | digits hd hzero hds =>
    rw [List.take_succ_cons]
    exact .digits hd hzero fun b hb => hds b (List.mem_of_mem_take hb)

theorem withFraction_isFrac (whole : Bytes) {fraction : Bytes} (h : Digits fraction) :
    ∃ frac, IsFrac frac ∧ withFraction whole fraction = whole ++ frac := by
  unfold withFraction
  split
  · exact ⟨[], .none, (List.append_nil _).symm⟩
  · next hne =>
    have hstrip : Digits (stripZeros fraction) := fun b hb =>
      h b ((List.rdropWhile_prefix _ _).subset hb)
    exact ⟨_, .digits hstrip hne, rfl⟩

theorem isExp_formatExponent (x : Int) : IsExp (formatExponent x) := by
  have hdigits : ∀ b ∈ (if x.natAbs < 10 then ('0' : Byte) :: decimal x.natAbs
      else decimal x.natAbs), isDigit b = true := by
    split
    · exact List.forall_mem_cons.mpr ⟨by decide, decimal_digits _⟩
    · exact decimal_digits _
  have hne : (if x.natAbs < 10 then ('0' : Byte) :: decimal x.natAbs else decimal x.natAbs) ≠ [] := by
    split
    · exact List.cons_ne_nil _ _
    · exact decimal_ne_nil _
  have hsign : [(if x < 0 then ('-' : Byte) else '+')] = [] ∨
      [(if x < 0 then ('-' : Byte) else '+')] = [('-' : Byte)] ∨
      [(if x < 0 then ('-' : Byte) else '+')] = [('+' : Byte)] := by
    split
    · exact Or.inr (Or.inl rfl)
    · exact Or.inr (Or.inr rfl)
  exact .digits (Or.inl rfl) hsign hdigits hne

theorem formatSignificant_parts (p : Nat) {ds : Bytes} (x : Int) (hds : IsInt ds)
    (hdigits : Digits ds) :
    ∃ int frac exp, IsInt int ∧ IsFrac frac ∧ IsExp exp ∧
      formatSignificant p ds x = int ++ (frac ++ exp) := by
  have htake : ∀ n, Digits (ds.drop n) := fun n b hb => hdigits b (List.mem_of_mem_drop hb)
  unfold formatSignificant
  split
  · obtain ⟨frac, hfrac, heq⟩ := withFraction_isFrac (ds.take 1) (htake 1)
    exact ⟨_, frac, _, isInt_take hds 0, hfrac, isExp_formatExponent x, by
      rw [heq, List.append_assoc]⟩
  · split
    · have hzeros : Digits (List.replicate (x.natAbs - 1) ('0' : Byte) ++ ds) := by
        intro b hb
        rcases List.mem_append.mp hb with hb | hb
        · rw [List.eq_of_mem_replicate hb]
          decide
        · exact hdigits b hb
      obtain ⟨frac, hfrac, heq⟩ := withFraction_isFrac (ascii "0") hzeros
      exact ⟨_, frac, [], .zero, hfrac, .none, by rw [heq, List.append_nil]; rfl⟩
    · obtain ⟨frac, hfrac, heq⟩ :=
        withFraction_isFrac (ds.take (x.natAbs + 1)) (htake (x.natAbs + 1))
      exact ⟨_, frac, [], isInt_take hds _, hfrac, .none, by rw [heq, List.append_nil]⟩

theorem isNumber_formatGeneral (p : Nat) {x : Float} (hx : isFinite x = true) :
    IsNumber (formatGeneral p x) := by
  obtain ⟨⟨n, d⟩, hq⟩ := Option.isSome_iff_exists.mp hx
  have hsign : signText x = [] ∨ signText x = [('-' : Byte)] := by
    unfold signText
    split
    · exact Or.inr rfl
    · exact Or.inl rfl
  simp only [formatGeneral, hq]
  split
  · have hnumber := IsNumber.intro hsign IsInt.zero IsFrac.none IsExp.none
    rwa [List.append_nil, List.append_nil] at hnumber
  · obtain ⟨int, frac, exp, hint, hfrac, hexp, heq⟩ :=
      formatSignificant_parts p (significant p n d).2 (isInt_decimal (significant p n d).1)
        (decimal_digits _)
    rw [heq]
    exact .intro hsign hint hfrac hexp

end Cxx
