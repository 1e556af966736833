import InverterMonitor.Server.Http
import InverterMonitor.Server.RuleEngine

/-!
# Sessions and the authorization server

`validSessions` with its clean-up, and `handleAuthorizeRequest`, the only place
where a session is issued.

* `handleAuthorizeRequest_issues`: a session is issued for the right password only,
  and nothing else changes.
-/

namespace InverterMonitor.Http
open Text Cxx Json

/-! ## Sessions -/

/-- Readings of the steady clock, in nanoseconds. -/
abbrev Time := Nat

def minutes (n : Nat) : Time := n * 60000000000

def hexDigits : Bytes := ascii "0123456789abcdef"

def hexDigit (n : Nat) : Byte := hexDigits.getD n 0

/-- `generateSessionId`, from the values that the generator draws. -/
def generateSessionId (values : Fin 8 → UInt64) : Bytes :=
  (List.finRange 8).flatMap fun i => (List.range 8).flatMap fun j =>
    let byte := ((values i).toNat >>> ((7 - j) * 8)) % 256
    [hexDigit (byte / 16), hexDigit (byte % 16)]

/-- The shape of the ids that are issued. -/
def IsSessionId (id : Bytes) : Prop := id.length = 128 ∧ ∀ b ∈ id, b ∈ hexDigits

theorem hexDigit_mem {n : Nat} (h : n < 16) : hexDigit n ∈ hexDigits := by
  have hall : ∀ n : Fin 16, hexDigit n ∈ hexDigits := by decide
  exact hall ⟨n, h⟩

theorem generateSessionId_isSessionId (values : Fin 8 → UInt64) :
    IsSessionId (generateSessionId values) := by
  constructor
  · simp [generateSessionId, List.length_flatMap]
  · intro b hb
    simp only [generateSessionId, List.mem_flatMap, List.mem_cons, List.not_mem_nil, or_false] at hb
    obtain ⟨i, _, j, _, rfl | rfl⟩ := hb
    · apply hexDigit_mem
      omega
    · apply hexDigit_mem
      omega

/-- `validSessions` and the time of the last clean-up.  Every key was generated. -/
structure Sessions where
  validSessions : Std.ExtTreeMap Bytes Time := ∅
  lastCleanup : Option Time := none
  generated : ∀ id ∈ validSessions, IsSessionId id := by simp

namespace Sessions

/-- `validSessions[id] = now` -/
def touch (sessions : Sessions) (id : Bytes) (now : Time) (hid : IsSessionId id) : Sessions :=
  { sessions with
    validSessions := sessions.validSessions.insert id now
    generated := by
      intro other hother
      rcases Std.ExtTreeMap.mem_insert.mp hother with heq | hmem
      · rw [← Std.LawfulEqCmp.eq_of_compare heq]
        exact hid
      · exact sessions.generated other hmem }

def sessionLifetime : Time := minutes 5

/-- The session has not been used for longer than its lifetime. -/
def expired (now time : Time) : Bool := sessionLifetime < now - time

/-- The first call only sets `lastCleanup`. -/
def removeExpiredSessions (now : Time) (sessions : Sessions) : Sessions :=
  let lastCleanup := sessions.lastCleanup.getD now
  if now - lastCleanup < minutes 1 then { sessions with lastCleanup := some lastCleanup }
  else
    { validSessions := sessions.validSessions.filter fun _ time => !expired now time
      lastCleanup := some now
      generated := by
        intro id hid
        exact sessions.generated id (Std.ExtTreeMap.mem_of_mem_filter hid) }

@[simp] theorem touch_validSessions (sessions : Sessions) (id : Bytes) (now : Time)
    (hid : IsSessionId id) :
    (sessions.touch id now hid).validSessions = sessions.validSessions.insert id now := rfl

/-- The clean-up takes sessions away and changes none. -/
theorem removeExpiredSessions_some {now : Time} {sessions : Sessions} {id : Bytes} {time : Time}
    (h : (removeExpiredSessions now sessions).validSessions[id]? = some time) :
    sessions.validSessions[id]? = some time := by
  unfold removeExpiredSessions at h
  simp only at h
  split at h
  · exact h
  · rw [Std.ExtTreeMap.getElem?_filter'] at h
    exact (Option.filter_eq_some_iff.mp h).1

end Sessions

/-! ## The server -/

/-- The state that HTTP requests can reach. -/
structure Server where
  engine : Rules.Engine := {}
  sessions : Sessions := {}
  /-- The content of `firmware.bin`. -/
  firmware : Option Bytes := none

/-- What one request meets: file contents, clock readings, drawn numbers. -/
structure Environment where
  cleanupTime : Time := 0
  sessionTime : Time := 0
  values : Fin 8 → UInt64 := fun _ => 0
  authFile : Option Bytes := none
  rulesFile : Option Bytes := none
  dataFile : Bytes → Option Bytes := fun _ => none
  /-- Whether `saveRules` succeeds. -/
  saves : Bool := true
  /-- How much can be written to `firmware.bin`; `none` when it cannot be opened. -/
  firmwareRoom : Option Nat := none
  /-- A shorter content stays in the buffer of its stream until the file is closed. -/
  firmwareBuffer : Nat := 1024

/-! ## Authorization -/

/-- How an authorization request ends. -/
inductive Authorization
  | silent
  | refused (reply : Reply)
  /-- The body equals the stored password; the session gets an id and is answered with it. -/
  | issued (body storedPassword : Bytes)

/-- The decision of `handleAuthorizeRequest` on the received chunks. -/
def authorize (env : Environment) (chunks : List Bytes) : Except Exception Authorization :=
  match chunks with
  | [] => .ok .silent
  | request :: chunks =>
    match readRequestLine request with
    | .error reply => .ok (.refused reply)
    | .ok line =>
      if line.method = ascii "OPTIONS" then .ok (.refused noContent)
      else if line.method ≠ ascii "POST" ∨ line.path ≠ ascii "/authorize" then
        .ok (.refused notFound)
      else do
        let headers ← readHeaders request line
        let body := trimString (readBody request line headers chunks)
        if body = [] then return .refused (badRequest "Empty password")
        else
          match env.authFile with
          | none => return .refused (badRequest "Missing authorization file")
          | some content =>
            match getLines content with
            | [] => return .refused (badRequest "Unable to read authorization password")
            | firstLine :: _ =>
              let storedPassword := trimString firstLine
              if body ≠ storedPassword then return .refused (unauthorized "Invalid password")
              else return .issued body storedPassword

def handleAuthorizeRequest (env : Environment) (chunks : List Bytes) (server : Server) :
    Except Exception (Option Reply × Server) := do
  match ← authorize env chunks with
  | .silent => return (none, server)
  | .refused reply => return (some reply, server)
  | .issued _ _ =>
    let sessionId := generateSessionId env.values
    return (some (ok sessionId),
      { server with
        sessions := server.sessions.touch sessionId env.sessionTime
          (generateSessionId_isSessionId env.values) })

/-- A request to `/authorize` whose body is the password in the first line of the
authorization file, both trimmed. -/
def HasPassword (env : Environment) (chunks : List Bytes) : Prop :=
  ∃ request rest line headers content firstLine others, chunks = request :: rest ∧
    readRequestLine request = .ok line ∧ line.method = ascii "POST" ∧
    line.path = ascii "/authorize" ∧ readHeaders request line = .ok headers ∧
    env.authFile = some content ∧ getLines content = firstLine :: others ∧
    trimString (readBody request line headers rest) ≠ [] ∧
    trimString (readBody request line headers rest) = trimString firstLine

theorem authorize_issued {env : Environment} {chunks : List Bytes} {body storedPassword : Bytes}
    (h : authorize env chunks = .ok (.issued body storedPassword)) : HasPassword env chunks := by
  unfold authorize at h
  split at h
  · cases h
  · next request rest =>
    split at h
    · cases h
    · next line hline =>
      split at h
      · cases h
      · split at h
        · cases h
        · next hpath =>
          rw [not_or, not_not, not_not] at hpath
          obtain ⟨headers, hheaders, h⟩ := bind_eq_ok.mp h
          simp only at h
          split at h
          · cases h
          · next hbody =>
            split at h
            · cases h
            · next content hfile =>
              split at h
              · cases h
              · next firstLine others hlines =>
                split at h
                · cases h
                · next hpassword =>
                  exact ⟨request, rest, line, headers, content, firstLine, others, rfl, hline,
                    hpath.1, hpath.2, hheaders, hfile, hlines, hbody, not_not.mp hpassword⟩

/-- An authorization request changes nothing but the session that it issues. -/
theorem handleAuthorizeRequest_issues {env : Environment} {chunks : List Bytes}
    {server after : Server} {reply : Option Reply}
    (h : handleAuthorizeRequest env chunks server = .ok (reply, after)) :
    after = server ∨
      HasPassword env chunks ∧ reply = some (ok (generateSessionId env.values)) ∧
        after = { server with
          sessions := server.sessions.touch (generateSessionId env.values) env.sessionTime
            (generateSessionId_isSessionId env.values) } := by
  obtain ⟨authorization, hauthorize, h⟩ := bind_eq_ok.mp h
  cases authorization with
  | silent =>
    cases h
    exact Or.inl rfl
  | refused reply =>
    cases h
    exact Or.inl rfl
  | issued body storedPassword =>
    cases h
    exact Or.inr ⟨authorize_issued hauthorize, rfl, rfl⟩

end InverterMonitor.Http
