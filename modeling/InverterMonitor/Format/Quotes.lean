import InverterMonitor.Text.Bytes

/-!
# String literals in a text

Where a text is inside of its literals, and texts with one place for a value.

* `IsBody.closed`: a body between quotes ends where its literal ends;
* `Embeds.append`, `Embeds.trans`, `Embeds.comp`: a place in a part of a text is one in the
  text;
* `embeds_intercalate`: and one in an item of a list is one in the list.
-/

namespace Quotes
open Text

/-! ## The scanner of literals -/

inductive Place
  | outside | inside | escaped
  deriving DecidableEq

def step : Place → Byte → Place
  | .outside, b => if b = '"' then .inside else .outside
  | .inside, b => if b = '"' then .outside else if b = '\\' then .escaped else .inside
  | .escaped, _ => .inside

def scan (p : Place) (s : Bytes) : Place := s.foldl step p

@[simp] theorem scan_nil (p : Place) : scan p [] = p := rfl

@[simp] theorem scan_cons (p : Place) (b : Byte) (s : Bytes) :
    scan p (b :: s) = scan (step p b) s := rfl

@[simp] theorem scan_append (p : Place) (s t : Bytes) : scan p (s ++ t) = scan (scan p s) t :=
  List.foldl_append

/-- All literals of the text end in it. -/
def Closed (s : Bytes) : Prop := scan .outside s = .outside

instance (s : Bytes) : Decidable (Closed s) := inferInstanceAs (Decidable (_ = _))

/-- A text without a quote of its own that could end a literal. -/
inductive IsBody : Bytes → Prop
  | nil : IsBody []
  | plain {b : Byte} {s : Bytes} (hquote : b ≠ '"') (hslash : b ≠ '\\') (hs : IsBody s) :
      IsBody (b :: s)
  | escape {s : Bytes} (letter : Byte) (hs : IsBody s) : IsBody (('\\' : Byte) :: letter :: s)

variable {s t : Bytes}

theorem closed_nil : Closed [] := rfl

theorem Closed.append (hs : Closed s) (ht : Closed t) : Closed (s ++ t) := by
  rw [Closed, scan_append, hs, ht]

theorem closed_of_not_mem (h : ('"' : Byte) ∉ s) : Closed s := by
  induction s with
  | nil => rfl
  | cons b s ih =>
    rw [List.mem_cons, not_or] at h
    rw [Closed, scan_cons, step, if_neg (Ne.symm h.1)]
    exact ih h.2

theorem IsBody.scan_inside (hs : IsBody s) : scan .inside s = .inside := by
  induction hs with
  | nil => rfl
  | plain hquote hslash _ ih => rw [scan_cons, step, if_neg hquote, if_neg hslash, ih]
  | escape letter _ ih => exact ih

/-- A literal. -/
theorem IsBody.closed (hs : IsBody s) : Closed (('"' : Byte) :: (s ++ [('"' : Byte)])) := by
  have hopen : step .outside '"' = .inside := rfl
  rw [Closed, scan_cons, hopen, scan_append, hs.scan_inside]
  rfl

theorem closed_intercalate {sep : Bytes} (hsep : Closed sep) {vs : List Bytes}
    (h : ∀ v ∈ vs, Closed v) : Closed (sep.intercalate vs) := by
  induction vs with
  | nil => rfl
  | cons v vs ih =>
    cases vs with
    | nil =>
      rw [List.intercalate_singleton]
      exact h v (by simp)
    | cons w vs =>
      rw [List.intercalate_cons_cons]
      exact ((h v (by simp)).append hsep).append (ih fun v hv => h v (List.mem_cons_of_mem _ hv))

/-! ## One place in a text -/

/-- For the values with `P`, the text `f` holds `g` in one place that is outside of all
literals. -/
def Embeds {α : Type} (P : α → Prop) (f g : α → Bytes) : Prop :=
  ∃ before after, Closed before ∧ ∀ x, P x → f x = before ++ (g x ++ after)

section Places
variable {α β : Type} {P : α → Prop} {f g h : α → Bytes}

theorem Embeds.refl (P : α → Prop) (f : α → Bytes) : Embeds P f f :=
  ⟨[], [], closed_nil, fun x _ => by simp⟩

theorem Embeds.congr (hf : Embeds P f g) (heq : ∀ x, P x → h x = f x) : Embeds P h g := by
  obtain ⟨before, after, hbefore, hplace⟩ := hf
  exact ⟨before, after, hbefore, fun x hx => (heq x hx).trans (hplace x hx)⟩

theorem Embeds.append (hf : Embeds P f g) (hs : Closed s) (t : Bytes) :
    Embeds P (fun x => s ++ f x ++ t) g := by
  obtain ⟨before, after, hbefore, hplace⟩ := hf
  refine ⟨s ++ before, after ++ t, hs.append hbefore, fun x hx => ?_⟩
  simp [hplace x hx]

theorem Embeds.trans (hf : Embeds P f g) (hg : Embeds P g h) : Embeds P f h := by
  obtain ⟨before, after, hbefore, hplace⟩ := hf
  obtain ⟨before', after', hbefore', hplace'⟩ := hg
  refine ⟨before ++ before', after' ++ after, hbefore.append hbefore', fun x hx => ?_⟩
  simp [hplace x hx, hplace' x hx]

theorem Embeds.comp {Q : β → Prop} {u : β → α} (hf : Embeds P f g) (hu : ∀ y, Q y → P (u y)) :
    Embeds Q (fun y => f (u y)) fun y => g (u y) := by
  obtain ⟨before, after, hbefore, hplace⟩ := hf
  exact ⟨before, after, hbefore, fun y hy => hplace (u y) (hu y hy)⟩

/-- For fewer values, what the place holds may be said in another way. -/
theorem Embeds.restrict {Q : α → Prop} (hf : Embeds P f g) (hQ : ∀ x, Q x → P x ∧ g x = h x) :
    Embeds Q f h := by
  obtain ⟨before, after, hbefore, hplace⟩ := hf
  refine ⟨before, after, hbefore, fun x hx => ?_⟩
  rw [hplace x (hQ x hx).1, (hQ x hx).2]

end Places

/-- The items around one of them have no part in its place. -/
theorem embeds_intercalate {α : Type} {sep : Bytes} (hsep : Closed sep) {item : α → Bytes}
    (hitem : ∀ x, Closed (item x)) (xs ys : List α) (P : α → Prop) :
    Embeds P (fun x => sep.intercalate ((xs ++ x :: ys).map item)) item := by
  induction xs with
  | nil =>
    cases ys with
    | nil => exact (Embeds.refl P item).congr fun x _ => by simp
    | cons y ys =>
      refine ((Embeds.refl P item).append closed_nil
        (sep ++ sep.intercalate ((y :: ys).map item))).congr fun x _ => ?_
      simp [List.intercalate_cons_cons]
  | cons y xs ih =>
    refine (ih.append ((hitem y).append hsep) []).congr fun x _ => ?_
    obtain ⟨z, zs, hrest⟩ : ∃ z zs, (xs ++ x :: ys).map item = z :: zs := by
      cases xs <;> exact ⟨_, _, rfl⟩
    rw [List.cons_append, List.map_cons, hrest, List.intercalate_cons_cons, List.append_nil]

end Quotes
