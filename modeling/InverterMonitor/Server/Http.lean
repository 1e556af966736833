import InverterMonitor.Server.Json
import InverterMonitor.Text.Lines
import InverterMonitor.Cxx.Scans

/-!
# Requests of the two HTTP servers

What `handleCommandRequest` and `handleAuthorizeRequest` do alike: the request
line, the headers and the body, which is completed by further chunks.
-/

namespace InverterMonitor.Http
open Text Cxx Json

/-! ## Searching -/

/-- `trimString` of `utils.hpp`, which knows four kinds of white space. -/
def trimString (value : Bytes) : Bytes :=
  trimBy (fun b => b == ' ' || b == '\t' || b == '\r' || b == '\n') value

/-- `find(pattern)` -/
def find (pattern : Bytes) : Bytes → Option Nat
  | [] => if pattern = [] then some 0 else none
  | b :: s => if pattern.isPrefixOf (b :: s) then some 0 else (find pattern s).map (· + 1)

/-- `find(pattern, start)` -/
def findFrom (pattern s : Bytes) (start : Nat) : Option Nat :=
  (find pattern (s.drop start)).map (· + start)

/-- `rfind(pattern, start)` for a pattern that is not empty. -/
def rfind (pattern s : Bytes) : Nat → Option Nat
  | 0 => if pattern.isPrefixOf s then some 0 else none
  | start + 1 =>
    if pattern.isPrefixOf (s.drop (start + 1)) then some (start + 1) else rfind pattern s start

theorem find_eq_some_iff {pattern s : Bytes} {i : Nat} (hpattern : pattern ≠ []) :
    find pattern s = some i ↔ pattern <+: s.drop i ∧ ∀ j < i, ¬pattern <+: s.drop j := by
  induction s generalizing i with
  | nil => simp [find, hpattern]
  | cons b s ih =>
    unfold find
    by_cases hbegins : pattern <+: b :: s
    · rw [if_pos (List.isPrefixOf_iff_prefix.mpr hbegins)]
      constructor
      · rintro h
        cases h
        exact ⟨hbegins, fun j hj => absurd hj (Nat.not_lt_zero j)⟩
      · rintro ⟨_, hfirst⟩
        cases i with
        | zero => rfl
        | succ i => exact absurd hbegins (hfirst 0 (Nat.succ_pos i))
    · rw [if_neg (mt List.isPrefixOf_iff_prefix.mp hbegins)]
      cases i with
      | zero => simp [hbegins]
      | succ i =>
        rw [List.drop_succ_cons, Option.map_eq_some_iff]
        simp only [Nat.add_right_cancel_iff, exists_eq_right, ih]
        refine and_congr_right fun _ => ?_
        constructor
        · intro hfirst j hj
          cases j with
          | zero => exact hbegins
          | succ j => exact hfirst j (by omega)
        · intro hfirst j hj
          exact hfirst (j + 1) (by omega)

theorem find_le {pattern s : Bytes} {i : Nat} (hpattern : pattern ≠ [])
    (h : find pattern s = some i) : i + pattern.length ≤ s.length := by
  have hlength := ((find_eq_some_iff hpattern).mp h).1.length_le
  have hpos := List.length_pos_of_ne_nil hpattern
  rw [List.length_drop] at hlength
  omega

theorem find_isSome {pattern s : Bytes} {i : Nat} (h : pattern <+: s.drop i) :
    ∃ j, find pattern s = some j := by
  induction s generalizing i with
  | nil =>
    rw [List.drop_nil, List.prefix_nil] at h
    exact ⟨0, by simp [find, h]⟩
  | cons b s ih =>
    unfold find
    by_cases hbegins : pattern.isPrefixOf (b :: s) = true
    · exact ⟨0, if_pos hbegins⟩
    · rw [if_neg hbegins]
      cases i with
      | zero => exact absurd (List.isPrefixOf_iff_prefix.mpr h) hbegins
      | succ i =>
        obtain ⟨j, hj⟩ := ih h
        exact ⟨j + 1, by rw [hj, Option.map_some]⟩

/-- What is found in a text is found in every longer one, at the same place. -/
theorem find_append {pattern s : Bytes} {i : Nat} (hpattern : pattern ≠ [])
    (h : find pattern s = some i) (t : Bytes) : find pattern (s ++ t) = some i := by
  have hle := find_le hpattern h
  obtain ⟨hbegins, hfirst⟩ := (find_eq_some_iff hpattern).mp h
  rw [find_eq_some_iff hpattern]
  constructor
  · rw [List.drop_append_of_le_length (by omega)]
    exact hbegins.trans (List.prefix_append _ _)
  · intro j hj hother
    apply hfirst j hj
    rw [List.drop_append_of_le_length (by omega)] at hother
    apply List.prefix_of_prefix_length_le hother (List.prefix_append _ t)
    rw [List.length_drop]
    omega

def lineBreak : Bytes := ascii "\r\n"

/-! ## Requests -/

/-- A response of type `text/plain`. -/
structure Reply where
  status : Bytes
  body : Bytes := []
  deriving DecidableEq, Repr

def ok (body : Bytes) : Reply := ⟨ascii "200 OK", body⟩
def badRequest (text : String) : Reply := ⟨ascii "400 Bad Request", ascii text⟩
def unauthorized (text : String) : Reply := ⟨ascii "401 Unauthorized", ascii text⟩
def notFound : Reply := ⟨ascii "404 Not Found", ascii "Not found"⟩
def noContent : Reply := ⟨ascii "204 No Content", []⟩
def serverError (text : String) : Reply := ⟨ascii "500 Internal Server Error", ascii text⟩

structure RequestLine where
  headerEnd : Nat
  lineEnd : Nat
  method : Bytes
  path : Bytes

/-- `headerEnd`, the request line and its two words, or the reply to a request
without them.  A word that is missing is empty. -/
def readRequestLine (request : Bytes) : Except Reply RequestLine :=
  match find (lineBreak ++ lineBreak) request with
  | none => .error (badRequest "Missing headers")
  | some headerEnd =>
    match find lineBreak request with
    | none => .error (badRequest "Invalid request line")
    | some lineEnd =>
      let (method, s) := (nextWord (request.take lineEnd)).getD ([], [])
      let (path, _) := (nextWord s).getD ([], [])
      .ok ⟨headerEnd, lineEnd, method, path⟩

structure Headers where
  contentLength : Nat := 0
  contentType : Bytes := []

def readHeader (headers : Headers) (headerLine : Bytes) : Except Exception Headers :=
  match cutAt ':' (stripCarriageReturn headerLine) with
  | none => .ok headers
  | some (name, value) =>
    let name := lower (trimString name)
    let value := trimString value
    if name = ascii "content-length" then
      (stoul value).map fun n => { headers with contentLength := n.toNat }
    else if name = ascii "content-type" then .ok { headers with contentType := value }
    else .ok headers

/-- The text that is searched for headers has `headerEnd` bytes, counted from the
end of the request line. -/
def readHeaders (request : Bytes) (line : RequestLine) : Except Exception Headers :=
  (getLines ((request.drop (line.lineEnd + 2)).take line.headerEnd)).foldlM readHeader {}

/-- The loop that receives until the body is long enough or nothing comes. -/
def receiveBody (contentLength : Nat) (body : Bytes) : List Bytes → Bytes
  | [] => body
  | chunk :: chunks =>
    if contentLength ≤ body.length ∨ chunk = [] then body
    else receiveBody contentLength (body ++ chunk) chunks

/-- All that was received, up to the announced length. -/
theorem receiveBody_take {chunks : List Bytes} (h : ∀ chunk ∈ chunks, chunk ≠ [])
    (contentLength : Nat) (body : Bytes) :
    (receiveBody contentLength body chunks).take contentLength =
      (body ++ chunks.flatten).take contentLength := by
  induction chunks generalizing body with
  | nil => simp [receiveBody]
  | cons chunk chunks ih =>
    unfold receiveBody
    by_cases hlong : contentLength ≤ body.length
    · rw [if_pos (Or.inl hlong), List.take_append_of_le_length hlong]
    · rw [if_neg (not_or.mpr ⟨hlong, h chunk (List.mem_cons_self ..)⟩),
        ih fun other hother => h other (List.mem_cons_of_mem _ hother),
        List.flatten_cons, List.append_assoc]

def readBody (request : Bytes) (line : RequestLine) (headers : Headers) (chunks : List Bytes) :
    Bytes :=
  (receiveBody headers.contentLength (request.drop (line.headerEnd + 4)) chunks).take
    headers.contentLength

end InverterMonitor.Http
