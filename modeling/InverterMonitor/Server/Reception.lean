import InverterMonitor.Server.Requests

/-!
# Reception of requests

Both handlers first receive a request and then act on it.

* `authorize_receive`, `handleCommandRequest_receive`: the handlers in these two
  stages;
* `handleCommandBody_cases`, `handleUpload_cases`: the ways through the second stage;
* `handleCommandRequest_sessions`: what a request does to the sessions, told from
  the session id that it presents.
-/

namespace InverterMonitor.Http
open Text Cxx Json Rules

/-- What a handler has before it acts: nothing, an early answer, or the request
line, the headers and the body. -/
inductive Received
  | silent
  | refused (reply : Reply)
  | request (line : RequestLine) (headers : Headers) (body : Bytes)

/-- The reading part of both handlers.  Headers are read of requests that are
`wanted`, the others are not found. -/
def receive (wanted : RequestLine → Bool) : List Bytes → Except Exception Received
  | [] => .ok .silent
  | request :: chunks =>
    match readRequestLine request with
    | .error reply => .ok (.refused reply)
    | .ok line =>
      if line.method = ascii "OPTIONS" then .ok (.refused noContent)
      else if wanted line then
        (readHeaders request line).map fun headers =>
          .request line headers (readBody request line headers chunks)
      else .ok (.refused notFound)

/-! ## The two handlers -/

def isAuthorization (line : RequestLine) : Bool :=
  line.method = ascii "POST" ∧ line.path = ascii "/authorize"

/-- The decision of `handleAuthorizeRequest` on what it received. -/
def checkPassword (env : Environment) : Received → Authorization
  | .silent => .silent
  | .refused reply => .refused reply
  | .request _ _ body =>
    if trimString body = [] then .refused (badRequest "Empty password")
    else
      match env.authFile with
      | none => .refused (badRequest "Missing authorization file")
      | some content =>
        match getLines content with
        | [] => .refused (badRequest "Unable to read authorization password")
        | firstLine :: _ =>
          if trimString body ≠ trimString firstLine then .refused (unauthorized "Invalid password")
          else .issued (trimString body) (trimString firstLine)

/-- What `handleCommandRequest` does with what it received. -/
def actOn (env : Environment) (server : Server) : Received → Except Failure Outcome
  | .silent => .ok { server := server, reply := none }
  | .refused reply => .ok { server := server, reply := some reply }
  | .request line headers body =>
    if isUpload line then
      if headers.contentLength = 0 ∨
          find (ascii "multipart/form-data") headers.contentType = none then
        .ok { server := server, reply := some (badRequest "Invalid upload request") }
      else .ok (handleUpload env headers body server)
    else if isCommand line then handleCommandBody env (trimString body) server
    else .ok { server := server, reply := some notFound }

theorem authorize_receive (env : Environment) (chunks : List Bytes) :
    authorize env chunks = (receive isAuthorization chunks).map (checkPassword env) := by
  cases chunks with
  | nil => rfl
  | cons request chunks =>
    unfold authorize receive
    simp only
    cases readRequestLine request with
    | error reply => rfl
    | ok line =>
      simp only [isAuthorization, decide_eq_true_eq]
      by_cases hoptions : line.method = ascii "OPTIONS"
      · rw [if_pos hoptions, if_pos hoptions]
        rfl
      rw [if_neg hoptions, if_neg hoptions]
      by_cases hpath : line.method = ascii "POST" ∧ line.path = ascii "/authorize"
      · rw [if_neg (by rw [not_or, not_not, not_not]; exact hpath), if_pos hpath]
        cases readHeaders request line with
        | error e => rfl
        | ok headers =>
          simp only [Except.map, checkPassword, bind, Except.bind]
          split
          · rfl
          cases env.authFile with
          | none => rfl
          | some content =>
            simp only
            cases getLines content with
            | nil => rfl
            | cons firstLine others =>
              simp only
              split <;> rfl
      · rw [if_pos (by rwa [not_and_or] at hpath), if_neg hpath]
        rfl

theorem handleCommandRequest_receive (env : Environment) (chunks : List Bytes) (server : Server) :
    handleCommandRequest env chunks server =
      raise (receive (fun _ => true) chunks) >>= actOn env server := by
  cases chunks with
  | nil => rfl
  | cons request chunks =>
    unfold handleCommandRequest receive
    simp only
    cases readRequestLine request with
    | error reply => rfl
    | ok line =>
      simp only
      split
      · rfl
      · cases readHeaders request line with
        | error e => rfl
        | ok headers => rfl

/-! ## The session check -/

/-- The session id of a trimmed body of `/command` that needs one. -/
def commandSession (body : Bytes) : Option Bytes :=
  if body = [] ∨ (ascii "REQ").isPrefixOf body ∨ body = ascii "GETRULES" then none
  else
    match cutAt ' ' body with
    | none => none
    | some (sessionId, rest) => if trimString rest = [] then none else some sessionId

/-- The session id that is looked up in `validSessions`. -/
def Received.session : Received → Option Bytes
  | .silent => none
  | .refused _ => none
  | .request line headers body =>
    if isUpload line then
      if headers.contentLength = 0 ∨
          find (ascii "multipart/form-data") headers.contentType = none then none
      else (readUpload headers body).toOption.map Prod.fst
    else if isCommand line then commandSession (trimString body)
    else none

def invalidSession : Reply := unauthorized "Invalid session"

/-- The sessions that the check looks into. -/
abbrev Environment.cleaned (env : Environment) (server : Server) : Sessions :=
  server.sessions.removeExpiredSessions env.cleanupTime

/-- How a request deals with the sessions, by the id that it presents. -/
inductive Checked (env : Environment) (server : Server) (outcome : Outcome) : Option Bytes → Prop
  | unchecked (h : outcome.server.sessions = server.sessions) : Checked env server outcome none
  | rejected {id : Bytes} (hid : id ∉ (env.cleaned server).validSessions)
      (h : outcome.server.sessions = env.cleaned server)
      (hreply : outcome.reply = some invalidSession) : Checked env server outcome (some id)
  | accepted {id : Bytes} (hid : id ∈ (env.cleaned server).validSessions)
      (h : outcome.server.sessions =
        (env.cleaned server).touch id env.sessionTime ((env.cleaned server).generated id hid))
      (hreply : outcome.reply ≠ some invalidSession) : Checked env server outcome (some id)

theorem acceptSession_cases (env : Environment) (sessionId : Bytes) (server : Server) :
    (∃ hid : sessionId ∈ (env.cleaned server).validSessions,
      acceptSession env sessionId server = (true, { server with
        sessions := (env.cleaned server).touch sessionId env.sessionTime
          ((env.cleaned server).generated sessionId hid) })) ∨
    (sessionId ∉ (env.cleaned server).validSessions ∧
      acceptSession env sessionId server =
        (false, { server with sessions := env.cleaned server })) := by
  unfold acceptSession
  by_cases hid : sessionId ∈ (env.cleaned server).validSessions
  · exact Or.inl ⟨hid, dif_pos hid⟩
  · exact Or.inr ⟨hid, dif_neg hid⟩

theorem ne_invalidSession {reply : Reply} (h : reply.status ≠ ascii "401 Unauthorized") :
    some reply ≠ some invalidSession := by
  intro heq
  exact h (congrArg Reply.status (Option.some.inj heq))

theorem ok_ne_invalidSession (body : Bytes) : some (ok body) ≠ some invalidSession := by
  apply ne_invalidSession
  show ascii "200 OK" ≠ ascii "401 Unauthorized"
  decide

theorem serverError_ne_invalidSession (text : String) :
    some (serverError text) ≠ some invalidSession := by
  apply ne_invalidSession
  show ascii "500 Internal Server Error" ≠ ascii "401 Unauthorized"
  decide

theorem handleSessionCommand_checked {env : Environment} {command : Bytes} {server : Server}
    {outcome : Outcome} (h : handleSessionCommand env command server = .ok outcome) :
    outcome.server.sessions = server.sessions ∧ outcome.reply ≠ some invalidSession := by
  obtain ⟨handled, _, h⟩ := bind_eq_ok.mp h
  simp only at h
  split at h
  · cases h
    exact ⟨rfl, ok_ne_invalidSession _⟩
  · cases h
    exact ⟨rfl, ok_ne_invalidSession _⟩

theorem writeFirmware_checked (env : Environment) (fileContent : Bytes) (server : Server) :
    (writeFirmware env fileContent server).server.sessions = server.sessions ∧
      (writeFirmware env fileContent server).reply ≠ some invalidSession := by
  unfold writeFirmware
  split
  · exact ⟨rfl, serverError_ne_invalidSession _⟩
  · refine ⟨rfl, ?_⟩
    simp only
    split
    · exact ok_ne_invalidSession _
    · exact serverError_ne_invalidSession _

/-- Without authorization a command returns, and only reads. -/
theorem handleHttpReqCommand_open (env : Environment) (command : Bytes) (engine : Engine) :
    ∃ handled, handleHttpReqCommand env false command engine = .ok handled ∧
      handled.engine = engine ∧ handled.run = [] := by
  unfold handleHttpReqCommand
  simp only [Bool.false_eq_true, ↓reduceIte]
  split
  · exact ⟨_, rfl, rfl, rfl⟩
  split
  · exact ⟨_, rfl, rfl, rfl⟩
  split
  · exact ⟨_, rfl, rfl, rfl⟩
  split
  · exact ⟨_, rfl, rfl, rfl⟩
  split
  · exact ⟨_, rfl, rfl, rfl⟩
  split
  · exact ⟨_, rfl, rfl, rfl⟩
  split
  · refine ⟨_, rfl, ?_⟩
    unfold answerChart
    split
    · exact ⟨rfl, rfl⟩
    · exact ⟨rfl, rfl⟩
  · exact ⟨_, rfl, rfl, rfl⟩

theorem handleOpenCommand_sessions {env : Environment} {body : Bytes} {invalid : String}
    {server : Server} {outcome : Outcome}
    (h : handleOpenCommand env body invalid server = .ok outcome) :
    outcome.server.sessions = server.sessions := by
  obtain ⟨handled, _, h⟩ := bind_eq_ok.mp h
  cases h
  rfl

/-- The ways through `handleCommandBody`. -/
inductive BodyCase (env : Environment) (body : Bytes) (server : Server) :
    Except Failure Outcome → Prop
  | refused (hsession : commandSession body = none) {text : String}
      (htext : text ∈ ["Empty command", "Missing session id", "Missing command"]) :
      BodyCase env body server (.ok { server := server, reply := some (badRequest text) })
  | opened (hsession : commandSession body = none) {invalid : String}
      (hinvalid : invalid ∈ ["Invalid REQ command", "Invalid GETRULES command"]) :
      BodyCase env body server (handleOpenCommand env body invalid server)
  | rejected {id : Bytes} (hsession : commandSession body = some id)
      (hid : id ∉ (env.cleaned server).validSessions) :
      BodyCase env body server (.ok
        { server := { server with sessions := env.cleaned server }
          reply := some invalidSession })
  | accepted {id rest : Bytes} (hsession : commandSession body = some id)
      (hcut : cutAt ' ' body = some (id, rest)) (hid : id ∈ (env.cleaned server).validSessions) :
      BodyCase env body server (handleSessionCommand env (trimString rest) { server with
        sessions := (env.cleaned server).touch id env.sessionTime
          ((env.cleaned server).generated id hid) })

theorem handleCommandBody_cases (env : Environment) (body : Bytes) (server : Server) :
    BodyCase env body server (handleCommandBody env body server) := by
  unfold handleCommandBody
  simp only
  by_cases hempty : body = []
  · rw [if_pos hempty]
    exact .refused (if_pos (Or.inl hempty)) (by decide)
  rw [if_neg hempty]
  by_cases hreq : (ascii "REQ").isPrefixOf body = true
  · rw [if_pos hreq]
    exact .opened (if_pos (Or.inr (Or.inl hreq))) (by decide)
  rw [if_neg hreq]
  by_cases hrules : body = ascii "GETRULES"
  · rw [if_pos hrules]
    exact .opened (if_pos (Or.inr (Or.inr hrules))) (by decide)
  rw [if_neg hrules]
  have hneeded : ¬(body = [] ∨ (ascii "REQ").isPrefixOf body ∨ body = ascii "GETRULES") :=
    not_or.mpr ⟨hempty, not_or.mpr ⟨hreq, hrules⟩⟩
  cases hcut : cutAt ' ' body with
  | none =>
    refine .refused ?_ (by decide)
    unfold commandSession
    rw [if_neg hneeded, hcut]
  | some cut =>
    obtain ⟨sessionId, rest⟩ := cut
    simp only
    by_cases hcommand : trimString rest = []
    · rw [if_pos hcommand]
      refine .refused ?_ (by decide)
      unfold commandSession
      rw [if_neg hneeded, hcut]
      exact if_pos hcommand
    have hsession : commandSession body = some sessionId := by
      unfold commandSession
      rw [if_neg hneeded, hcut]
      exact if_neg hcommand
    rw [if_neg hcommand]
    rcases acceptSession_cases env sessionId server with ⟨hid, haccept⟩ | ⟨hid, haccept⟩
    · rw [haccept, if_pos rfl]
      exact .accepted hsession hcut hid
    · rw [haccept, if_neg Bool.false_ne_true]
      exact .rejected hsession hid

theorem handleCommandBody_checked {env : Environment} {body : Bytes} {server : Server}
    {outcome : Outcome} (h : handleCommandBody env body server = .ok outcome) :
    Checked env server outcome (commandSession body) := by
  have hcases := handleCommandBody_cases env body server
  rw [h] at hcases
  generalize hresult : Except.ok outcome = result at hcases
  cases hcases with
  | refused hsession htext =>
    cases hresult
    rw [hsession]
    exact .unchecked rfl
  | opened hsession hinvalid =>
    rw [hsession]
    exact .unchecked (handleOpenCommand_sessions hresult.symm)
  | rejected hsession hid =>
    cases hresult
    rw [hsession]
    exact .rejected hid rfl rfl
  | accepted hsession hcut hid =>
    obtain ⟨hsessions, hreply⟩ := handleSessionCommand_checked hresult.symm
    rw [hsession]
    exact .accepted hid hsessions hreply

/-- The ways through `handleUpload`. -/
inductive UploadCase (env : Environment) (headers : Headers) (body : Bytes) (server : Server) :
    Outcome → Prop
  | refused {reply : Reply} (hread : readUpload headers body = .error reply) :
      UploadCase env headers body server { server := server, reply := some reply }
  | rejected {id fileContent : Bytes} (hread : readUpload headers body = .ok (id, fileContent))
      (hid : id ∉ (env.cleaned server).validSessions) :
      UploadCase env headers body server
        { server := { server with sessions := env.cleaned server }
          reply := some invalidSession }
  | accepted {id fileContent : Bytes} (hread : readUpload headers body = .ok (id, fileContent))
      (hid : id ∈ (env.cleaned server).validSessions) :
      UploadCase env headers body server (writeFirmware env fileContent { server with
        sessions := (env.cleaned server).touch id env.sessionTime
          ((env.cleaned server).generated id hid) })

theorem handleUpload_cases (env : Environment) (headers : Headers) (body : Bytes)
    (server : Server) : UploadCase env headers body server (handleUpload env headers body server) := by
  unfold handleUpload
  cases hread : readUpload headers body with
  | error reply => exact .refused hread
  | ok upload =>
    obtain ⟨sessionId, fileContent⟩ := upload
    simp only
    rcases acceptSession_cases env sessionId server with ⟨hid, haccept⟩ | ⟨hid, haccept⟩
    · rw [haccept, if_pos rfl]
      exact .accepted hread hid
    · rw [haccept, if_neg Bool.false_ne_true]
      exact .rejected hread hid

theorem handleUpload_checked (env : Environment) (headers : Headers) (body : Bytes)
    (server : Server) :
    Checked env server (handleUpload env headers body server)
      ((readUpload headers body).toOption.map Prod.fst) := by
  have hcases := handleUpload_cases env headers body server
  generalize handleUpload env headers body server = outcome at hcases ⊢
  cases hcases with
  | refused hread =>
    rw [hread]
    exact .unchecked rfl
  | rejected hread hid =>
    rw [hread]
    exact .rejected hid rfl rfl
  | accepted hread hid =>
    obtain ⟨hsessions, hreply⟩ := writeFirmware_checked env _ { server with
      sessions := (env.cleaned server).touch _ env.sessionTime
        ((env.cleaned server).generated _ hid) }
    rw [hread]
    exact .accepted hid hsessions hreply

theorem actOn_checked {env : Environment} {received : Received} {server : Server}
    {outcome : Outcome} (h : actOn env server received = .ok outcome) :
    Checked env server outcome received.session := by
  cases received with
  | silent =>
    cases h
    exact .unchecked rfl
  | refused reply =>
    cases h
    exact .unchecked rfl
  | request line headers body =>
    unfold actOn at h
    unfold Received.session
    simp only at h ⊢
    split at h
    · next hupload =>
      rw [if_pos hupload]
      split at h
      · next hinvalid =>
        rw [if_pos hinvalid]
        cases h
        exact .unchecked rfl
      · next hvalid =>
        rw [if_neg hvalid]
        cases h
        exact handleUpload_checked env headers body server
    · next hupload =>
      rw [if_neg hupload]
      split at h
      · next hcommand =>
        rw [if_pos hcommand]
        exact handleCommandBody_checked h
      · next hcommand =>
        rw [if_neg hcommand]
        cases h
        exact .unchecked rfl

/-- The session id that a request presents to `handleCommandRequest`. -/
def presentedSession (chunks : List Bytes) : Option Bytes :=
  match receive (fun _ => true) chunks with
  | .ok received => received.session
  | .error _ => none

theorem handleCommandRequest_sessions {env : Environment} {chunks : List Bytes} {server : Server}
    {outcome : Outcome} (h : handleCommandRequest env chunks server = .ok outcome) :
    Checked env server outcome (presentedSession chunks) := by
  rw [handleCommandRequest_receive] at h
  obtain ⟨received, hreceived, h⟩ := bind_eq_ok.mp h
  unfold presentedSession
  rw [raise_eq_ok.mp hreceived]
  exact actOn_checked h

end InverterMonitor.Http
