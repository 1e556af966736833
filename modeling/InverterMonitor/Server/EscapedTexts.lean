import InverterMonitor.Cxx.JsonNumbers
import InverterMonitor.Server.Registers

/-!
# Escaped texts

What the escaper makes of a text is fit for a JSON string when it knows all control
bytes of the text.

* `isChars_jsonEscape`, `plain_jsonEscape_iff`: exactly then;
* `isString_quoted`: and a text in quotes is a JSON string.
-/

namespace InverterMonitor.Registers
open Text Cxx JsonGrammar

/-- The control bytes that `jsonEscape` replaces. -/
def IsEscaped (b : Byte) : Prop := b = 8 ∨ b = 9 ∨ b = 10 ∨ b = 12 ∨ b = 13

/-- The escaper leaves no control byte as it is. -/
def Clean (s : Bytes) : Prop := ∀ b ∈ s, 32 ≤ b ∨ IsEscaped b

theorem clean_of_all {s : Bytes} (h : ∀ b ∈ s, 32 ≤ b) : Clean s := fun b hb => Or.inl (h b hb)

theorem escapeByte_cases (c : Byte) :
    (c = '"' ∨ c = '\\' ∨ IsEscaped c) ∧
        (∃ letter ∈ ascii "\"\\/bfnrt", escapeByte c = [('\\' : Byte), letter]) ∨
      ¬(c = '"' ∨ c = '\\' ∨ IsEscaped c) ∧ escapeByte c = [c] := by
  unfold IsEscaped
  by_cases h : c = '"' ∨ c = '\\' ∨ c = 8 ∨ c = 9 ∨ c = 10 ∨ c = 12 ∨ c = 13
  · refine Or.inl ⟨h, ?_⟩
    rcases h with rfl | rfl | rfl | rfl | rfl | rfl | rfl
    · exact ⟨'"', by decide, rfl⟩
    · exact ⟨'\\', by decide, rfl⟩
    · exact ⟨'b', by decide, rfl⟩
    · exact ⟨'t', by decide, rfl⟩
    · exact ⟨'n', by decide, rfl⟩
    · exact ⟨'f', by decide, rfl⟩
    · exact ⟨'r', by decide, rfl⟩
  · refine Or.inr ⟨h, ?_⟩
    simp only [not_or] at h
    obtain ⟨hquote, hslash, h8, h9, h10, h12, h13⟩ := h
    simp only [escapeByte, hquote, hslash, h8, h9, h10, h12, h13, ↓reduceIte]

theorem isChars_escapeByte {c : Byte} (h : 32 ≤ c ∨ IsEscaped c) : IsChars (escapeByte c) := by
  rcases escapeByte_cases c with ⟨-, letter, hletter, heq⟩ | ⟨hplain, heq⟩
  · rw [heq]
    exact .short hletter .nil
  · simp only [not_or] at hplain
    rw [heq]
    exact .unescaped (h.resolve_right hplain.2.2) hplain.1 hplain.2.1 .nil

theorem isChars_jsonEscape {s : Bytes} (h : Clean s) : IsChars (jsonEscape s) := by
  induction s with
  | nil => exact .nil
  | cons c s ih =>
    rw [jsonEscape_cons]
    exact (isChars_escapeByte (h c (List.mem_cons_self ..))).append
      (ih fun b hb => h b (List.mem_cons_of_mem c hb))

theorem plain_escapeByte {c : Byte} (h : Plain (escapeByte c)) : 32 ≤ c ∨ IsEscaped c := by
  rcases escapeByte_cases c with ⟨rfl | rfl | hescaped, -⟩ | ⟨-, heq⟩
  · exact Or.inl (by decide)
  · exact Or.inl (by decide)
  · exact Or.inr hescaped
  · rw [heq] at h
    unfold IsEscaped
    rcases h c (List.mem_singleton_self c) with hc | rfl | rfl | rfl
    · exact Or.inl hc
    · exact Or.inr (by decide)
    · exact Or.inr (by decide)
    · exact Or.inr (by decide)

theorem plain_jsonEscape_iff {s : Bytes} : Plain (jsonEscape s) ↔ Clean s := by
  refine ⟨fun h => ?_, fun h => (isChars_jsonEscape h).plain⟩
  induction s with
  | nil => exact fun b hb => absurd hb List.not_mem_nil
  | cons c s ih =>
    rw [jsonEscape_cons, plain_append] at h
    exact List.forall_mem_cons.mpr ⟨plain_escapeByte h.1, ih h.2⟩

theorem isString_quoted {s : Bytes} (h : Clean s) :
    IsString (('"' : Byte) :: (jsonEscape s ++ ascii "\"")) := .intro (isChars_jsonEscape h)

/-- A text of the source, which needs no escapes. -/
def Unescaped (s : Bytes) : Prop := ∀ b ∈ s, 32 ≤ b ∧ b ≠ '"' ∧ b ≠ '\\'

theorem isChars_unescaped {s : Bytes} (h : Unescaped s) : IsChars s := by
  induction s with
  | nil => exact .nil
  | cons b s ih =>
    obtain ⟨hcontrol, hquote, hslash⟩ := h b (List.mem_cons_self ..)
    exact .unescaped hcontrol hquote hslash (ih fun b' hb' => h b' (List.mem_cons_of_mem b hb'))

/-- A member with such a key. -/
theorem derives_member {key value : Bytes} (hkey : Unescaped key) (h : Derives .value value) :
    Derives .members (('"' : Byte) :: (key ++ ('"' : Byte) :: (':' : Byte) :: value)) := by
  have hmember := h.lone_member (.intro (isChars_unescaped hkey))
  rwa [List.cons_append, List.append_assoc] at hmember

end InverterMonitor.Registers
