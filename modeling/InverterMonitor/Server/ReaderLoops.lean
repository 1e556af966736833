import InverterMonitor.Server.JsonLocality

/-!
# The loops of the readers

Objects and arrays are read by one loop, `readItems`, that takes items until it
meets a closing byte.

* `parseMembers_eq`, `parseElements_eq`: the loops of the source are such loops;
* `Extends`: a reading that does not change when more rounds are allowed;
* `Heads`: the states in which a run of the loop comes to its head;
* `Heads.resume`: a run that goes on alike from a changed text ends alike.
-/

namespace InverterMonitor.Json
open Text Cxx

variable {α β σ : Type}

/-! ## Items -/

/-- Items up to `close`, separated by commas that may be missing. -/
def readItems (close : Byte) (item : σ → Cursor → Except Failure (σ × Cursor)) :
    Nat → σ → Cursor → Except Failure (σ × Cursor)
  | 0, _, _ => .error .diverged
  | fuel + 1, st, c =>
    if (skipWhitespace c).rest = [] then .error .rejected
    else if (skipWhitespace c).rest.head? = some close then .ok (st, (skipWhitespace c).advance)
    else item st (skipWhitespace c) >>= fun r => readItems close item fuel r.1 (skipComma r.2)

/-- `consumeChar` as a reader that may reject. -/
def expect (expected : Byte) (c : Cursor) : Except Failure (Unit × Cursor) :=
  if (consumeChar c expected).1 then .ok ((), (consumeChar c expected).2) else .error .rejected

/-- The key of a member, up to the colon. -/
def readKey (c : Cursor) : Except Failure (Bytes × Cursor) := do
  let key ← orReject (parseJsonString c)
  let colon ← expect ':' key.2
  return (lower key.1, colon.2)

def memberItem (member : Bytes → σ → Cursor → Except Failure (σ × Cursor)) (st : σ) (c : Cursor) :
    Except Failure (σ × Cursor) := do
  let key ← readKey c
  member key.1 st key.2

def elementItem (element : Cursor → Except Failure (α × Cursor)) (push : List α → α → List α)
    (out : List α) (c : Cursor) : Except Failure (List α × Cursor) := do
  let x ← element c
  return (push out x.1, x.2)

theorem parseMembers_eq (member : Bytes → σ → Cursor → Except Failure (σ × Cursor)) (fuel : Nat)
    (st : σ) (c : Cursor) :
    parseMembers member fuel st c = readItems '}' (memberItem member) fuel st c := by
  induction fuel generalizing st c with
  | zero => rfl
  | succ fuel ih =>
    simp only [parseMembers, readItems]
    cases hs : (skipWhitespace c).rest with
    | nil => rfl
    | cons b s =>
      by_cases hb : b = '}'
      · simp [hb]
      · have hhead : (b :: s).head? ≠ some ('}' : Byte) := by simpa using hb
        simp only [if_neg hb, if_neg hhead, List.cons_ne_nil, ↓reduceIte, memberItem, readKey]
        cases orReject (parseJsonString (skipWhitespace c)) with
        | error e => rfl
        | ok key =>
          simp only [ok_bind, expect]
          cases hcolon : consumeChar key.2 ':' with
          | mk found d =>
            cases found with
            | false => rfl
            | true =>
              simp only [↓reduceIte, ok_bind, pure_eq_ok, ih]

theorem parseElements_eq (element : Cursor → Except Failure (α × Cursor))
    (push : List α → α → List α) (fuel : Nat) (out : List α) (c : Cursor) :
    parseElements element push fuel out c =
      readItems ']' (elementItem element push) fuel out c := by
  induction fuel generalizing out c with
  | zero => rfl
  | succ fuel ih =>
    simp only [parseElements, readItems]
    cases hs : (skipWhitespace c).rest with
    | nil => rfl
    | cons b s =>
      by_cases hb : b = ']'
      · simp [hb]
      · have hhead : (b :: s).head? ≠ some (']' : Byte) := by simpa using hb
        simp only [if_neg hb, if_neg hhead, List.cons_ne_nil, ↓reduceIte, elementItem]
        cases element (skipWhitespace c) with
        | error e => rfl
        | ok x => simp only [ok_bind, pure_eq_ok, ih]

theorem parseObject_eq (member : Bytes → σ → Cursor → Except Failure (σ × Cursor)) (bound : Nat)
    (st : σ) (c : Cursor) :
    parseObject member bound st c =
      (expect '{' c >>= fun r => readItems '}' (memberItem member) bound st r.2) := by
  simp only [parseObject, expect]
  cases consumeChar c '{' with
  | mk found d => cases found <;> simp [parseMembers_eq]

theorem parseArray_eq (element : Cursor → Except Failure (α × Cursor))
    (push : List α → α → List α) (bound : Nat) (c : Cursor) :
    parseArray element push bound c =
      (expect '[' c >>= fun r => readItems ']' (elementItem element push) bound [] r.2) := by
  simp only [parseArray, expect]
  cases consumeChar c '[' with
  | mk found d => cases found <;> simp [parseElements_eq]

/-! ## Local loops -/

section

variable {t t' : Bytes} (ht : t ≠ [])
include ht

omit ht in
theorem Local.bind {read : Cursor → Except Failure (α × Cursor)}
    {next : α → Cursor → Except Failure (β × Cursor)} (hread : Local t t' read)
    (hnext : ∀ a, Local t t' (next a)) :
    Local t t' fun c => read c >>= fun r => next r.1 r.2 := by
  constructor
  · intro c b e h
    obtain ⟨⟨a, d⟩, hd, he⟩ := bind_eq_ok.mp h
    have h₁ := hread.strict hd
    have h₂ : e.left ≤ d.left - 1 := (hnext a).strict he
    omega
  · intro w b e h hleft
    obtain ⟨⟨a, d⟩, hd, he⟩ := bind_eq_ok.mp h
    have hback : e.left ≤ d.left - 1 := (hnext a).strict he
    obtain ⟨u, rfl, hsame⟩ := hread.same hd (by omega)
    obtain ⟨v, hv, hrest⟩ := (hnext a).same he hleft
    refine ⟨v, hv, ?_⟩
    simp only [hsame, ok_bind]
    exact hrest

/-- A comma, or no comma, before a reader. -/
theorem Local.skipComma {read : Cursor → Except Failure (α × Cursor)} (h : Local t t' read) :
    Local t t' fun c => read (skipComma c) := by
  have hpos := List.length_pos_iff.mpr ht
  constructor
  · intro c a d hread
    have h₁ := left_skipComma_le c
    have h₂ := h.strict hread
    omega
  · intro w a d hread hleft
    have hback := h.strict hread
    have hw : ¬Blank w := by
      intro hblank
      have := left_skipComma_blank t hblank
      omega
    obtain ⟨v, hskip⟩ := skipComma_before hw
    simp only [hskip] at hread ⊢
    exact h.same hread hleft

omit ht in
theorem expect_cons (expected : Byte) {b : Byte} (s : Bytes) (hb : isSpace b = false) :
    expect expected (.inside (b :: s)) =
      if b = expected then .ok ((), .inside s) else .error .rejected := by
  have hspace := skipWhitespace_cons s hb
  by_cases h : b = expected <;> simp only [expect, consumeChar, hspace] <;> simp [h]

omit ht in
theorem expect_skipWhitespace (expected : Byte) (c : Cursor) :
    expect expected (skipWhitespace c) = expect expected c := by
  have hconsume : consumeChar (skipWhitespace c) expected = consumeChar c expected := by
    rw [consumeChar, skipWhitespace_skipWhitespace]
    rfl
  rw [expect, hconsume]
  rfl

theorem expect_local (expected : Byte) : Local t t' (expect expected) := by
  refine .of_head ht (expect_skipWhitespace expected) ?_ ?_ ?_
  · intro c a d hc h
    rcases rest_eq_nil_cases hc with rfl | ⟨n, rfl⟩ <;> cases h
  · intro b s a d hb h
    rw [expect_cons expected s hb] at h
    split at h
    · cases h
      exact le_refl _
    · cases h
  · intro b w a d hb h hleft
    rw [expect_cons expected _ hb] at h ⊢
    split at h
    · next hexpected =>
      cases h
      exact ⟨w, rfl, by rw [if_pos hexpected]⟩
    · cases h

theorem readKey_local (hbound : Bound t) (hbound' : Bound t') : Local t t' readKey := by
  have hcolon : ∀ key : Bytes, Local t t' fun c =>
      expect ':' c >>= fun colon => (.ok (lower key, colon.2) : Except Failure (Bytes × Cursor)) :=
    fun key => (expect_local ht ':').convert fun _ => Or.inl ⟨lower key, fun _ => rfl⟩
  exact (parseJsonString_local ht hbound hbound').bind hcolon

theorem memberItem_local (hbound : Bound t) (hbound' : Bound t')
    {member : Bytes → σ → Cursor → Except Failure (σ × Cursor)}
    (hmember : ∀ key st, Local t t' (member key st)) (st : σ) :
    Local t t' (memberItem member st) :=
  (readKey_local ht hbound hbound').bind fun key => hmember key st

omit ht in
theorem elementItem_local {element : Cursor → Except Failure (α × Cursor)}
    (helement : Local t t' element) (push : List α → α → List α) (out : List α) :
    Local t t' (elementItem element push out) :=
  helement.convert fun x => Or.inl ⟨push out x, fun _ => rfl⟩

omit ht in
theorem readItems_cons {close b : Byte} {item : σ → Cursor → Except Failure (σ × Cursor)}
    (fuel : Nat) (st : σ) (s : Bytes) (hb : isSpace b = false) :
    readItems close item (fuel + 1) st (.inside (b :: s)) =
      if b = close then .ok (st, .inside s)
      else item st (.inside (b :: s)) >>= fun r =>
        readItems close item fuel r.1 (InverterMonitor.Json.skipComma r.2) := by
  have hspace := skipWhitespace_cons s hb
  by_cases h : b = close <;> simp only [readItems, hspace] <;> simp [h]

omit ht in
theorem readItems_skipWhitespace {close : Byte}
    {item : σ → Cursor → Except Failure (σ × Cursor)} (fuel : Nat) (st : σ) (c : Cursor) :
    readItems close item fuel st (skipWhitespace c) = readItems close item fuel st c := by
  cases fuel with
  | zero => rfl
  | succ fuel => simp only [readItems, skipWhitespace_skipWhitespace]

theorem readItems_local {close : Byte} {item : σ → Cursor → Except Failure (σ × Cursor)}
    (hitem : ∀ st, Local t t' (item st)) (fuel : Nat) (st : σ) :
    Local t t' (readItems close item fuel st) := by
  induction fuel generalizing st with
  | zero => constructor <;> intros <;> contradiction
  | succ fuel ih =>
    have hround := (hitem st).bind fun st => (ih st).skipComma ht
    refine .of_head ht (readItems_skipWhitespace _ st) ?_ ?_ ?_
    · intro c a d hc h
      rcases rest_eq_nil_cases hc with rfl | ⟨n, rfl⟩ <;> cases h
    · intro b s a d hb h
      rw [readItems_cons fuel st s hb] at h
      split at h
      · cases h
        exact le_refl _
      · exact hround.strict h
    · intro b w a d hb h hleft
      rw [readItems_cons fuel st _ hb] at h ⊢
      split at h
      · next hclose =>
        cases h
        exact ⟨w, rfl, by rw [if_pos hclose]⟩
      · next hclose =>
        rw [if_neg hclose]
        exact hround.same (w := b :: w) h hleft

theorem parseObject_local (hbound : Bound t) (hbound' : Bound t')
    {member : Bytes → σ → Cursor → Except Failure (σ × Cursor)}
    (hmember : ∀ key st, Local t t' (member key st)) (bound : Nat) (st : σ) :
    Local t t' (parseObject member bound st) := by
  have hitems : ∀ _ : Unit, Local t t' (readItems '}' (memberItem member) bound st) := fun _ =>
    readItems_local ht (memberItem_local ht hbound hbound' hmember) bound st
  have heq : parseObject member bound st = fun c =>
      expect '{' c >>= fun r => readItems '}' (memberItem member) bound st r.2 :=
    funext fun c => parseObject_eq member bound st c
  rw [heq]
  exact (expect_local ht '{').bind hitems

theorem parseArray_local {element : Cursor → Except Failure (α × Cursor)}
    (helement : Local t t' element) (push : List α → α → List α) (bound : Nat) :
    Local t t' (parseArray element push bound) := by
  have hitems : ∀ _ : Unit, Local t t' (readItems ']' (elementItem element push) bound []) :=
    fun _ => readItems_local ht (elementItem_local helement push) bound []
  have heq : parseArray element push bound = fun c =>
      expect '[' c >>= fun r => readItems ']' (elementItem element push) bound [] r.2 :=
    funext fun c => parseArray_eq element push bound c
  rw [heq]
  exact (expect_local ht '[').bind hitems

end

/-! ## More rounds -/

/-- A reading that succeeds gives the same result in `y`. -/
def Extends (x y : Except Failure α) : Prop := ∀ a, x = .ok a → y = .ok a

theorem Extends.refl (x : Except Failure α) : Extends x x := fun _ h => h

theorem Extends.bind {x y : Except Failure α} {f g : α → Except Failure β} (h : Extends x y)
    (hnext : ∀ a, Extends (f a) (g a)) : Extends (x >>= f) (y >>= g) := by
  intro b hb
  obtain ⟨a, ha, hb⟩ := bind_eq_ok.mp hb
  rw [h a ha]
  exact hnext a b hb

theorem Extends.ite {p : Prop} [Decidable p] {x y x' y' : Except Failure α} (h : Extends x y)
    (h' : Extends x' y') : Extends (if p then x else x') (if p then y else y') := by
  by_cases hp : p <;> simpa [hp]

theorem skipJsonValue_extends_step {fuel fuel' : Nat}
    (helements : ∀ close c, Extends (skipElements close fuel c) (skipElements close fuel' c))
    (c : Cursor) : Extends (skipJsonValue (fuel + 1) c) (skipJsonValue (fuel' + 1) c) := by
  rw [← skipJsonValue_skipWhitespace (fuel + 1), ← skipJsonValue_skipWhitespace (fuel' + 1)]
  cases hs : (skipWhitespace c).rest with
  | nil => rcases rest_eq_nil_cases hs with h | ⟨n, h⟩ <;> rw [h] <;> exact .refl _
  | cons b s =>
    have hb := isSpace_skipWhitespace hs
    rw [Cursor.eq_inside_of_rest hs, skipJsonValue_cons fuel s hb, skipJsonValue_cons fuel' s hb]
    split
    · exact helements '}' _
    split
    · exact helements ']' _
    · exact .refl _

theorem skipElements_extends_step {fuel fuel' : Nat} {close : Byte}
    (hvalue : ∀ c, Extends (skipJsonValue fuel c) (skipJsonValue fuel' c))
    (helements : ∀ c, Extends (skipElements close fuel c) (skipElements close fuel' c))
    (c : Cursor) :
    Extends (skipElements close (fuel + 1) c) (skipElements close (fuel' + 1) c) := by
  simp only [skipElements]
  split
  · exact .refl _
  · refine (hvalue c).bind fun d => ?_
    split
    · exact helements _
    split
    · exact .refl _
    · exact helements _

theorem skip_extends {fuel fuel' : Nat} (h : fuel ≤ fuel') :
    (∀ c, Extends (skipJsonValue fuel c) (skipJsonValue fuel' c)) ∧
      ∀ close c, Extends (skipElements close fuel c) (skipElements close fuel' c) := by
  induction fuel generalizing fuel' with
  | zero => constructor <;> intros <;> intro a ha <;> cases ha
  | succ fuel ih =>
    obtain ⟨fuel', rfl⟩ : ∃ n, fuel' = n + 1 := ⟨fuel' - 1, by omega⟩
    obtain ⟨hvalue, helements⟩ := ih (Nat.le_of_succ_le_succ h)
    exact ⟨skipJsonValue_extends_step helements,
      fun close => skipElements_extends_step hvalue (helements close)⟩

theorem readItems_extends {close : Byte} {item item' : σ → Cursor → Except Failure (σ × Cursor)}
    (hitem : ∀ st c, Extends (item st c) (item' st c)) {fuel fuel' : Nat} (h : fuel ≤ fuel')
    (st : σ) (c : Cursor) :
    Extends (readItems close item fuel st c) (readItems close item' fuel' st c) := by
  induction fuel generalizing fuel' st c with
  | zero =>
    intro a ha
    cases ha
  | succ fuel ih =>
    obtain ⟨fuel', rfl⟩ : ∃ n, fuel' = n + 1 := ⟨fuel' - 1, by omega⟩
    simp only [readItems]
    split
    · exact .refl _
    split
    · exact .refl _
    · exact (hitem st _).bind fun r => ih (Nat.le_of_succ_le_succ h) r.1 _

theorem passing_extends {bound bound' : Nat} (h : bound ≤ bound') (a : α) (c : Cursor) :
    Extends (passing (skipJsonValue bound) a c) (passing (skipJsonValue bound') a c) :=
  ((skip_extends h).1 c).bind fun _ => .refl _

theorem memberItem_extends {member member' : Bytes → σ → Cursor → Except Failure (σ × Cursor)}
    (h : ∀ key st c, Extends (member key st c) (member' key st c)) (st : σ) (c : Cursor) :
    Extends (memberItem member st c) (memberItem member' st c) :=
  (Extends.refl (readKey c)).bind fun key => h key.1 st key.2

theorem elementItem_extends {element element' : Cursor → Except Failure (α × Cursor)}
    (h : ∀ c, Extends (element c) (element' c)) (push : List α → α → List α) (out : List α)
    (c : Cursor) : Extends (elementItem element push out c) (elementItem element' push out c) :=
  (h c).bind fun _ => .refl _

theorem parseObject_extends {member member' : Bytes → σ → Cursor → Except Failure (σ × Cursor)}
    (hmember : ∀ key st c, Extends (member key st c) (member' key st c)) {bound bound' : Nat}
    (h : bound ≤ bound') (st : σ) (c : Cursor) :
    Extends (parseObject member bound st c) (parseObject member' bound' st c) := by
  rw [parseObject_eq, parseObject_eq]
  exact (Extends.refl _).bind fun r => readItems_extends (memberItem_extends hmember) h st r.2

theorem parseArray_extends {element element' : Cursor → Except Failure (α × Cursor)}
    (helement : ∀ c, Extends (element c) (element' c)) {bound bound' : Nat} (h : bound ≤ bound')
    (push : List α → α → List α) (c : Cursor) :
    Extends (parseArray element push bound c) (parseArray element' push bound' c) := by
  rw [parseArray_eq, parseArray_eq]
  exact (Extends.refl _).bind fun r =>
    readItems_extends (elementItem_extends helement push) h [] r.2

/-! ## The heads of a run -/

/-- The loop at `c` takes an item that ends at `d`. -/
structure Takes (close : Byte) (item : σ → Cursor → Except Failure (σ × Cursor)) (st : σ)
    (c : Cursor) (st' : σ) (d : Cursor) : Prop where
  goes_on : ∃ b, (skipWhitespace c).rest.head? = some b ∧ b ≠ close
  read : item st (skipWhitespace c) = .ok (st', d)

/-- The states and cursors at the loop's head in a run from `st₀` and `c₀`. -/
inductive Heads (close : Byte) (item : σ → Cursor → Except Failure (σ × Cursor)) (st₀ : σ)
    (c₀ : Cursor) : σ → Cursor → Prop
  | start : Heads close item st₀ c₀ st₀ c₀
  | next {st st' : σ} {c d : Cursor} : Heads close item st₀ c₀ st c →
      Takes close item st c st' d → Heads close item st₀ c₀ st' (skipComma d)

section

variable {close : Byte} {item item' : σ → Cursor → Except Failure (σ × Cursor)}

theorem Takes.round {st st' : σ} {c d : Cursor} (h : Takes close item st c st' d) (fuel : Nat) :
    readItems close item (fuel + 1) st c = readItems close item fuel st' (skipComma d) := by
  obtain ⟨⟨b, hb, hne⟩, hread⟩ := h
  have hrest : (skipWhitespace c).rest ≠ [] := by
    rintro hnil
    simp [hnil] at hb
  have hclose : (skipWhitespace c).rest.head? ≠ some close := by simpa [hb] using hne
  rw [readItems, if_neg hrest, if_neg hclose, hread, ok_bind]

/-- A run that ends also ends from each of its heads. -/
theorem Heads.ends {st₀ st : σ} {c₀ c : Cursor} (h : Heads close item st₀ c₀ st c) {fuel : Nat}
    {a : σ} {e : Cursor} (hread : readItems close item fuel st₀ c₀ = .ok (a, e)) :
    ∃ fuel', readItems close item fuel' st c = .ok (a, e) := by
  induction h with
  | start => exact ⟨fuel, hread⟩
  | next _ htakes ih =>
    obtain ⟨fuel', hread⟩ := ih
    cases fuel' with
    | zero => cases hread
    | succ fuel' =>
      rw [htakes.round] at hread
      exact ⟨fuel', hread⟩

/-- A run that ends takes the item that it meets. -/
theorem readItems_item {st : σ} {c e : Cursor} {a : σ} {fuel : Nat} {b : Byte}
    (hread : readItems close item fuel st c = .ok (a, e))
    (hb : (skipWhitespace c).rest.head? = some b) (hne : b ≠ close) :
    ∃ r, item st (skipWhitespace c) = .ok r := by
  cases fuel with
  | zero => cases hread
  | succ fuel =>
    have hclose : (skipWhitespace c).rest.head? ≠ some close := by simpa [hb] using hne
    simp only [readItems, if_neg hclose] at hread
    split at hread
    · cases hread
    · obtain ⟨r, hr, _⟩ := bind_eq_ok.mp hread
      exact ⟨r, hr⟩

/-- With more rounds the loop with `item'` reads at `c'` what the other reads at `c`. -/
def Resumes (close : Byte) (item item' : σ → Cursor → Except Failure (σ × Cursor)) (st : σ)
    (c c' : Cursor) : Prop :=
  ∀ fuel fuel', fuel < fuel' →
    Extends (readItems close item fuel st c) (readItems close item' fuel' st c')

variable {t t' : Bytes}

/-- One item and then the same text. -/
theorem Resumes.of_item (hext : ∀ st c, Extends (item st c) (item' st c)) {st : σ} {u : Bytes}
    (hu : ¬Blank u) (hclose : (skipWhitespace (.inside (u ++ t))).rest.head? ≠ some close)
    (hitem : Extends (item st (skipWhitespace (.inside (u ++ t))))
      (item' st (skipWhitespace (.inside (u ++ t'))))) :
    Resumes close item item' st (.inside (u ++ t)) (.inside (u ++ t')) := by
  intro fuel fuel' hlt
  obtain ⟨fuel', rfl⟩ : ∃ n, fuel' = n + 1 := ⟨fuel' - 1, by omega⟩
  obtain ⟨b, v, hb, hskip⟩ := skipWhitespace_before hu
  cases fuel with
  | zero =>
    intro a ha
    cases ha
  | succ fuel =>
    rw [← readItems_skipWhitespace (fuel + 1), ← readItems_skipWhitespace (fuel' + 1)]
    simp only [hskip] at hclose hitem ⊢
    have hne : b ≠ close := by simpa using hclose
    rw [readItems_cons fuel st _ hb, readItems_cons fuel' st _ hb, if_neg hne, if_neg hne]
    exact hitem.bind fun r => readItems_extends hext (by omega) r.1 _

/-- An item before `t` is taken alike before `t'`. -/
theorem Takes.resume (ht : t ≠ []) (hlocal : ∀ st, Local t t' (item st))
    (hext : ∀ st c, Extends (item st c) (item' st c)) {st st' : σ} {u : Bytes} {d : Cursor}
    (h : Takes close item st (.inside (u ++ t)) st' d) (hleft : t.length ≤ d.left) :
    ∃ v, d = .inside (v ++ t) ∧
      Takes close item' st (.inside (u ++ t')) st' (.inside (v ++ t')) := by
  have hpos := List.length_pos_iff.mpr ht
  have hback := (hlocal st).strict h.read
  have hu : ¬Blank u := by
    intro hblank
    have := left_skipWhitespace_blank t hblank
    omega
  obtain ⟨b, v, _, hskip⟩ := skipWhitespace_before hu
  obtain ⟨hclose, hread⟩ := h
  rw [hskip] at hclose hread
  obtain ⟨v', hd, hsame⟩ := (hlocal st).same (w := b :: v) hread hleft
  refine ⟨v', hd, ⟨?_, ?_⟩⟩
  · rw [hskip]
    exact hclose
  · rw [hskip]
    exact hext _ _ _ hsame

/-- A run that reaches a head before `t` reaches it alike before `t'`. -/
theorem Heads.resume (ht : t ≠ []) (hlocal : ∀ st, Local t t' (item st))
    (hext : ∀ st c, Extends (item st c) (item' st c)) {st₀ st : σ} {w : Bytes} {c : Cursor}
    (h : Heads close item st₀ (.inside (w ++ t)) st c) (hleft : t.length < c.left) :
    ∃ u, c = .inside (u ++ t) ∧
      (Resumes close item item' st c (.inside (u ++ t')) →
        Resumes close item item' st₀ (.inside (w ++ t)) (.inside (w ++ t'))) := by
  induction h with
  | start => exact ⟨w, rfl, fun h => h⟩
  | @next st st' c d _ htakes ih =>
    have hback := (hlocal st).strict htakes.read
    have hspace := left_skipWhitespace_le c
    have hcomma := left_skipComma_le d
    obtain ⟨u, rfl, hresume⟩ := ih (by omega)
    obtain ⟨v, rfl, htakes'⟩ := htakes.resume ht hlocal hext (by omega)
    have hv : ¬Blank v := by
      intro hblank
      have := left_skipComma_blank t hblank
      omega
    obtain ⟨x, hx⟩ := skipComma_before hv
    refine ⟨x, hx t, fun hrest => hresume fun fuel fuel' hlt => ?_⟩
    obtain ⟨fuel', rfl⟩ : ∃ n, fuel' = n + 1 := ⟨fuel' - 1, by omega⟩
    cases fuel with
    | zero =>
      intro a ha
      cases ha
    | succ fuel =>
      rw [htakes.round, htakes'.round, hx t']
      exact hrest fuel fuel' (by omega)

theorem head_of_expect {expected : Byte} {c d : Cursor} {a : Unit}
    (h : expect expected c = .ok (a, d)) : (skipWhitespace c).rest.head? = some expected := by
  simp only [expect, consumeChar] at h
  by_cases hhead : (skipWhitespace c).rest.head? = some expected
  · exact hhead
  · simp [hhead] at h

theorem head_of_readKey {c d : Cursor} {key : Bytes} (h : readKey c = .ok (key, d)) :
    (skipWhitespace c).rest.head? = some ('"' : Byte) := by
  obtain ⟨⟨name, e⟩, hname, _⟩ := bind_eq_ok.mp h
  rw [orReject_eq_ok, ← parseJsonString_skipWhitespace] at hname
  cases hs : (skipWhitespace c).rest with
  | nil => rcases rest_eq_nil_cases hs with hc | ⟨n, hc⟩ <;> rw [hc] at hname <;> cases hname
  | cons b s =>
    have hb := isSpace_skipWhitespace hs
    by_cases hquote : b = '"'
    · rw [hquote]
      rfl
    · rw [Cursor.eq_inside_of_rest hs, parseJsonString_other s hb hquote] at hname
      cases hname

/-- Behind white space a member or the closing brace stands before the end of an object. -/
theorem bound_of_readItems {member : Bytes → σ → Cursor → Except Failure (σ × Cursor)} {st a : σ}
    {s : Bytes} {e : Cursor} {fuel : Nat}
    (h : readItems '}' (memberItem member) fuel st (.inside s) = .ok (a, e)) :
    s ≠ [] ∧ Bound s := by
  cases fuel with
  | zero => cases h
  | succ fuel =>
    cases s with
    | nil => cases h
    | cons b s =>
      refine ⟨by simp, bound_cons s ?_⟩
      by_cases hb : isSpace b = true
      · simp [isBoundary, hb]
      · have hspace : isSpace b = false := by simpa using hb
        rw [readItems_cons fuel st s hspace] at h
        by_cases hclose : b = '}'
        · rw [hclose]
          decide
        · rw [if_neg hclose] at h
          obtain ⟨r, hr, _⟩ := bind_eq_ok.mp h
          obtain ⟨key, hkey, _⟩ := bind_eq_ok.mp hr
          have hhead := head_of_readKey hkey
          rw [skipWhitespace_cons s hspace] at hhead
          rw [Option.some.inj hhead]
          decide

theorem bound_of_skipComma {member : Bytes → σ → Cursor → Except Failure (σ × Cursor)} {st a : σ}
    {s : Bytes} {e : Cursor} {fuel : Nat}
    (h : readItems '}' (memberItem member) fuel st (skipComma (.inside s)) = .ok (a, e)) :
    s ≠ [] ∧ Bound s := by
  cases s with
  | nil =>
    cases fuel with
    | zero => cases h
    | succ fuel => cases h
  | cons b s =>
    refine ⟨by simp, bound_cons s ?_⟩
    by_cases hb : isSpace b = true
    · simp [isBoundary, hb]
    by_cases hcomma : b = ','
    · rw [hcomma]
      decide
    · have hspace : isSpace b = false := by simpa using hb
      have hskip := skipComma_gap s blank_nil hspace hcomma
      rw [List.nil_append] at hskip
      rw [hskip] at h
      simpa [Bound] using (bound_of_readItems h).2

/-- What is read behind white space before `t` does not stand in `t`. -/
theorem not_blank_of_left {u : Bytes} {d : Cursor} (ht : t ≠ [])
    (h : d.left ≤ (skipWhitespace (.inside (u ++ t))).left - 1) (hleft : t.length ≤ d.left) :
    ¬Blank u := by
  intro hblank
  have hpos := List.length_pos_iff.mpr ht
  have := left_skipWhitespace_blank t hblank
  omega

theorem Heads.left_le (hlocal : ∀ st, Local t t' (item st)) {st₀ st : σ} {c₀ c : Cursor}
    (h : Heads close item st₀ c₀ st c) : c.left ≤ c₀.left := by
  induction h with
  | start => exact le_refl _
  | @next st st' c d _ htakes ih =>
    have hback := (hlocal st).strict htakes.read
    have hspace := left_skipWhitespace_le c
    have hcomma := left_skipComma_le d
    omega

/-- What is read at a head stands behind the start of the run. -/
theorem Heads.left_read_le (hlocal : ∀ st, Local t t' (item st)) {st₀ st : σ} {c₀ c d : Cursor}
    (h : Heads close item st₀ c₀ st c) {read : Cursor → Except Failure (α × Cursor)} {a : α}
    (hread : Local t t' read) (hd : read (skipWhitespace c) = .ok (a, d)) : d.left ≤ c₀.left := by
  have h₁ := h.left_le hlocal
  have h₂ := left_skipWhitespace_le c
  have h₃ := hread.strict hd
  omega

/-- A run into the object that begins at `d`, in a list of objects. -/
theorem Heads.resume_object {t t' : Bytes} (ht : t ≠ [])
    {member member' : Bytes → σ → Cursor → Except Failure (σ × Cursor)}
    (hlocal : ∀ bound st, Local t t' (parseObject member bound st))
    (hext : ∀ key st c, Extends (member key st c) (member' key st c)) {bound bound' : Nat}
    (hbound : bound < bound') {st : σ} {push : List σ → σ → List σ} {w : Bytes} {out : List σ}
    {c d : Cursor}
    (h : Heads ']' (elementItem (parseObject member bound st) push) [] (.inside (w ++ t)) out c)
    (hopen : expect '{' (skipWhitespace c) = .ok ((), d)) (hleft : t.length ≤ d.left) :
    ∃ v, d = .inside (v ++ t) ∧
      (Resumes '}' (memberItem member) (memberItem member') st d (.inside (v ++ t')) →
        Resumes ']' (elementItem (parseObject member bound st) push)
          (elementItem (parseObject member' bound' st) push) [] (.inside (w ++ t))
          (.inside (w ++ t'))) := by
  have hext' := elementItem_extends (parseObject_extends hext (Nat.le_of_lt hbound) st) push
  have hspace := left_skipWhitespace_le c
  have hbrace : Local t t' (expect '{') := expect_local ht '{'
  have hback := hbrace.strict hopen
  have hpos := List.length_pos_iff.mpr ht
  obtain ⟨u, rfl, hresume⟩ := h.resume ht (elementItem_local (hlocal bound st) push) hext'
    (by omega)
  have hopen' := hopen
  rw [expect_skipWhitespace] at hopen'
  obtain ⟨v, rfl, hsame⟩ := (expect_local ht '{').same hopen' hleft
  have hclose : (skipWhitespace (.inside (u ++ t))).rest.head? ≠ some (']' : Byte) := by
    rw [head_of_expect hopen']
    decide
  refine ⟨v, rfl, fun hrest => hresume (.of_item hext' (not_blank_of_left ht hback hleft)
    hclose ?_)⟩
  · refine Extends.bind ?_ fun _ => .refl _
    rw [← expect_skipWhitespace] at hsame
    rw [parseObject_eq, parseObject_eq, hopen, hsame]
    exact hrest bound bound' hbound

/-- A run into the value of a member. -/
theorem Heads.resume_value {t t' : Bytes} (ht : t ≠ []) (hbound : Bound t) (hbound' : Bound t')
    {member member' : Bytes → σ → Cursor → Except Failure (σ × Cursor)}
    (hlocal : ∀ key st, Local t t' (member key st))
    (hext : ∀ key st c, Extends (member key st c) (member' key st c)) {st₀ st : σ} {w : Bytes}
    {c d : Cursor} {key : Bytes} (h : Heads '}' (memberItem member) st₀ (.inside (w ++ t)) st c)
    (hkey : readKey (skipWhitespace c) = .ok (key, d)) (hleft : t.length ≤ d.left) :
    ∃ v, d = .inside (v ++ t) ∧
      (Extends (member key st d) (member' key st (.inside (v ++ t'))) →
        Resumes '}' (memberItem member) (memberItem member') st₀ (.inside (w ++ t))
          (.inside (w ++ t'))) := by
  have hext' := memberItem_extends hext
  have hspace := left_skipWhitespace_le c
  have hread := readKey_local ht hbound hbound'
  have hback := hread.strict hkey
  have hpos := List.length_pos_iff.mpr ht
  obtain ⟨u, rfl, hresume⟩ :=
    h.resume ht (memberItem_local ht hbound hbound' hlocal) hext' (by omega)
  have hspaces : ∀ c, readKey (skipWhitespace c) = readKey c := fun c => by
    rw [readKey, parseJsonString_skipWhitespace, ← readKey]
  have hkey' := hkey
  rw [hspaces] at hkey'
  obtain ⟨v, rfl, hsame⟩ := hread.same hkey' hleft
  have hclose : (skipWhitespace (.inside (u ++ t))).rest.head? ≠ some ('}' : Byte) := by
    rw [head_of_readKey hkey']
    decide
  refine ⟨v, rfl, fun hrest => hresume (.of_item hext' (not_blank_of_left ht hback hleft)
    hclose ?_)⟩
  rw [← hspaces] at hsame
  rw [memberItem, memberItem, hkey, hsame]
  exact hrest

/-- A run into a list. -/
theorem resume_array {t t' : Bytes} (ht : t ≠ []) {element element' : Cursor → Except Failure (α × Cursor)}
    {push : List α → α → List α} {bound bound' : Nat} (hbound : bound < bound') {w : Bytes}
    {c : Cursor} (hopen : expect '[' (.inside (w ++ t)) = .ok ((), c)) (hleft : t.length ≤ c.left) :
    ∃ v, c = .inside (v ++ t) ∧
      (Resumes ']' (elementItem element push) (elementItem element' push) [] c
          (.inside (v ++ t')) →
        Extends (parseArray element push bound (.inside (w ++ t)))
          (parseArray element' push bound' (.inside (w ++ t')))) := by
  have hbracket : Local t t' (expect '[') := expect_local ht '['
  obtain ⟨v, rfl, hsame⟩ := hbracket.same hopen hleft
  refine ⟨v, rfl, fun hrest => ?_⟩
  rw [parseArray_eq, parseArray_eq, hopen, hsame]
  exact hrest bound bound' hbound

/-- In a list that is read to its end every object is read to its end. -/
theorem Heads.object_ends {member : Bytes → σ → Cursor → Except Failure (σ × Cursor)}
    {bound fuel : Nat} {st : σ} {push : List σ → σ → List σ} {out : List σ} {c₀ c d : Cursor}
    (h : Heads ']' (elementItem (parseObject member bound st) push) [] c₀ out c)
    (hbrace : expect '{' (skipWhitespace c) = .ok ((), d)) {r : List σ × Cursor}
    (hread : readItems ']' (elementItem (parseObject member bound st) push) fuel [] c₀ = .ok r) :
    ∃ r, readItems '}' (memberItem member) bound st d = .ok r := by
  obtain ⟨fuel', hread⟩ := h.ends hread
  have hhead := head_of_expect hbrace
  rw [skipWhitespace_skipWhitespace] at hhead
  obtain ⟨r, hr⟩ := readItems_item hread hhead (by decide)
  obtain ⟨x, hx, _⟩ := bind_eq_ok.mp hr
  rw [parseObject_eq, hbrace] at hx
  exact ⟨x, hx⟩

/-- In an object that is read to its end every member is read to its end. -/
theorem Heads.member_ends {member : Bytes → σ → Cursor → Except Failure (σ × Cursor)}
    {fuel : Nat} {st₀ st : σ} {c₀ c d : Cursor} {key : Bytes}
    (h : Heads '}' (memberItem member) st₀ c₀ st c)
    (hkey : readKey (skipWhitespace c) = .ok (key, d)) {r : σ × Cursor}
    (hread : readItems '}' (memberItem member) fuel st₀ c₀ = .ok r) :
    ∃ r, member key st d = .ok r := by
  obtain ⟨fuel', hread⟩ := h.ends hread
  have hhead := head_of_readKey hkey
  rw [skipWhitespace_skipWhitespace] at hhead
  obtain ⟨r, hr⟩ := readItems_item hread hhead (by decide)
  rw [memberItem, hkey] at hr
  exact ⟨r, hr⟩

theorem array_ends {element : Cursor → Except Failure (α × Cursor)} {push : List α → α → List α}
    {bound : Nat} {c d : Cursor} (hopen : expect '[' c = .ok ((), d)) {r : List α × Cursor}
    (hread : parseArray element push bound c = .ok r) :
    readItems ']' (elementItem element push) bound [] d = .ok r := by
  rw [parseArray_eq, hopen] at hread
  exact hread

end

end InverterMonitor.Json
