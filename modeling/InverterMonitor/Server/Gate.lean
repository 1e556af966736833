import InverterMonitor.Server.Reception

/-!
# The authorization gate

Runs of the authorization server and the command server, with the rules and
variables changed by other threads in between.

* `handleCommandRequest_gated`: a request that carries no valid session id leaves
  everything as it is;
* `requests_gated`: over a whole run, every session id was issued for the right
  password, and every request with an effect carried such an id.
-/

namespace InverterMonitor.Http
open Text Cxx Json Rules Runs

/-! ## What a request carries and changes -/

/-- The session id in an upload or in a command that needs one. -/
def Carries (chunks : List Bytes) (id : Bytes) : Prop :=
  ∃ request rest line headers, chunks = request :: rest ∧ readRequestLine request = .ok line ∧
    readHeaders request line = .ok headers ∧
    ((isUpload line = true ∧ ∃ fileContent,
        readUpload headers (readBody request line headers rest) = .ok (id, fileContent)) ∨
      (isCommand line = true ∧ ∃ command,
        cutAt ' ' (trimString (readBody request line headers rest)) = some (id, command) ∧
          ¬ascii "REQ" <+: trimString (readBody request line headers rest) ∧
          trimString (readBody request line headers rest) ≠ ascii "GETRULES"))

/-- The request changes the rules, the variables, the firmware file or the last
use of a session, runs commands of a rule or hands a line to `parseCommand`. -/
def Affects (server : Server) (outcome : Outcome) : Prop :=
  outcome.server.engine ≠ server.engine ∨ outcome.server.firmware ≠ server.firmware ∨
    outcome.run ≠ [] ∨ outcome.forwarded ≠ none ∨
    ∃ (id : Bytes) (time time' : Time), server.sessions.validSessions[id]? = some time ∧
      outcome.server.sessions.validSessions[id]? = some time' ∧ time ≠ time'

/-- Nothing has happened but that expired sessions may be gone. -/
structure Quiet (server : Server) (outcome : Outcome) : Prop where
  engine : outcome.server.engine = server.engine
  firmware : outcome.server.firmware = server.firmware
  run : outcome.run = []
  forwarded : outcome.forwarded = none
  sessions : ∀ (id : Bytes) (time : Time), outcome.server.sessions.validSessions[id]? = some time →
    server.sessions.validSessions[id]? = some time

theorem Quiet.refused (server : Server) (reply : Option Reply) :
    Quiet server { server := server, reply := reply } :=
  ⟨rfl, rfl, rfl, rfl, fun _ _ h => h⟩

theorem Quiet.not_affects {server : Server} {outcome : Outcome} (h : Quiet server outcome) :
    ¬Affects server outcome := by
  rintro (hengine | hfirmware | hrun | hforwarded | ⟨id, time, time', htime, htime', hne⟩)
  · exact hengine h.engine
  · exact hfirmware h.firmware
  · exact hrun h.run
  · exact hforwarded h.forwarded
  · rw [h.sessions id time' htime'] at htime
    exact hne (Option.some.inj htime).symm

/-- The session ids of the outcome were valid before. -/
def KeepsIds (server : Server) (outcome : Outcome) : Prop :=
  ∀ id ∈ outcome.server.sessions.validSessions, id ∈ server.sessions.validSessions

theorem Quiet.keepsIds {server : Server} {outcome : Outcome} (h : Quiet server outcome) :
    KeepsIds server outcome := by
  intro id hid
  obtain ⟨time, htime⟩ := Option.isSome_iff_exists.mp (Std.ExtTreeMap.mem_iff_isSome_getElem?.mp hid)
  exact Std.ExtTreeMap.mem_iff_isSome_getElem?.mpr (by rw [h.sessions id time htime]; rfl)

/-! ## Requests without a session -/

theorem handleOpenCommand_quiet {env : Environment} {body : Bytes} {invalid : String}
    {server : Server} {outcome : Outcome}
    (h : handleOpenCommand env body invalid server = .ok outcome) : Quiet server outcome := by
  obtain ⟨handled, hhandled, hengine, hrun⟩ := handleHttpReqCommand_open env body server.engine
  unfold handleOpenCommand at h
  simp only [hhandled, ok_bind] at h
  cases h
  exact ⟨hengine, rfl, hrun, rfl, fun _ _ h => h⟩

/-! ## The session check -/

theorem cleaned_mem {now : Time} {server : Server} {id : Bytes}
    (h : id ∈ (server.sessions.removeExpiredSessions now).validSessions) :
    id ∈ server.sessions.validSessions := by
  rw [Std.ExtTreeMap.mem_iff_isSome_getElem?] at h ⊢
  obtain ⟨time, htime⟩ := Option.isSome_iff_exists.mp h
  rw [Sessions.removeExpiredSessions_some htime]
  rfl

/-- An id that is rejected changes nothing. -/
theorem Quiet.cleaned (env : Environment) (server : Server) (reply : Option Reply) :
    Quiet server { server := { server with sessions := env.cleaned server }, reply := reply } :=
  ⟨rfl, rfl, rfl, rfl, fun _ _ h => Sessions.removeExpiredSessions_some h⟩

/-- An id that is accepted was valid before. -/
theorem touched_mem {env : Environment} {server : Server} {id other : Bytes}
    (hid : id ∈ (env.cleaned server).validSessions)
    (h : other ∈ ((env.cleaned server).touch id env.sessionTime
      ((env.cleaned server).generated id hid)).validSessions) :
    other ∈ server.sessions.validSessions := by
  rcases Std.ExtTreeMap.mem_insert.mp h with heq | hmem
  · rw [← Std.LawfulEqCmp.eq_of_compare heq]
    exact cleaned_mem hid
  · exact cleaned_mem hmem

/-! ## The gate -/

theorem commandSession_some {body id : Bytes} (h : commandSession body = some id) :
    ¬ascii "REQ" <+: body ∧ body ≠ ascii "GETRULES" := by
  unfold commandSession at h
  split at h
  · cases h
  · next hneeded =>
    rw [not_or, not_or, List.isPrefixOf_iff_prefix] at hneeded
    exact hneeded.2

theorem handleCommandBody_gated {env : Environment} {body : Bytes} {server : Server}
    {outcome : Outcome} (h : handleCommandBody env body server = .ok outcome) :
    Quiet server outcome ∨ ∃ id command, cutAt ' ' body = some (id, command) ∧
      ¬ascii "REQ" <+: body ∧ body ≠ ascii "GETRULES" ∧
      id ∈ (server.sessions.removeExpiredSessions env.cleanupTime).validSessions ∧
      KeepsIds server outcome := by
  have hcases := handleCommandBody_cases env body server
  rw [h] at hcases
  generalize hresult : Except.ok outcome = result at hcases
  cases hcases with
  | refused hsession htext =>
    cases hresult
    exact Or.inl (Quiet.refused _ _)
  | opened hsession hinvalid => exact Or.inl (handleOpenCommand_quiet hresult.symm)
  | rejected hsession hid =>
    cases hresult
    exact Or.inl (Quiet.cleaned env server _)
  | accepted hsession hcut hid =>
    obtain ⟨hreq, hrules⟩ := commandSession_some hsession
    refine Or.inr ⟨_, _, hcut, hreq, hrules, hid, fun other hother => ?_⟩
    rw [(handleSessionCommand_checked hresult.symm).1] at hother
    exact touched_mem hid hother

theorem handleUpload_gated (env : Environment) (headers : Headers) (body : Bytes)
    (server : Server) :
    Quiet server (handleUpload env headers body server) ∨ ∃ id fileContent,
      readUpload headers body = .ok (id, fileContent) ∧
      id ∈ (server.sessions.removeExpiredSessions env.cleanupTime).validSessions ∧
      KeepsIds server (handleUpload env headers body server) := by
  have hcases := handleUpload_cases env headers body server
  generalize handleUpload env headers body server = outcome at hcases ⊢
  cases hcases with
  | refused hread => exact Or.inl (Quiet.refused _ _)
  | rejected hread hid => exact Or.inl (Quiet.cleaned env server _)
  | accepted hread hid =>
    refine Or.inr ⟨_, _, hread, hid, fun other hother => ?_⟩
    rw [(writeFirmware_checked env _ _).1] at hother
    exact touched_mem hid hother

/-- Without a valid session id a request leaves everything as it is. -/
theorem handleCommandRequest_gated {env : Environment} {chunks : List Bytes} {server : Server}
    {outcome : Outcome} (h : handleCommandRequest env chunks server = .ok outcome) :
    Quiet server outcome ∨ ∃ id, Carries chunks id ∧
      id ∈ (server.sessions.removeExpiredSessions env.cleanupTime).validSessions ∧
      KeepsIds server outcome := by
  unfold handleCommandRequest at h
  split at h
  · cases h
    exact Or.inl (Quiet.refused _ _)
  · next request rest =>
    split at h
    · cases h
      exact Or.inl (Quiet.refused _ _)
    · next line hline =>
      split at h
      · cases h
        exact Or.inl (Quiet.refused _ _)
      · obtain ⟨headers, hheaders, h⟩ := bind_eq_ok.mp h
        have hheaders := raise_eq_ok.mp hheaders
        split at h
        · next hupload =>
          split at h
          · cases h
            exact Or.inl (Quiet.refused _ _)
          · cases h
            rcases handleUpload_gated env headers (readBody request line headers rest) server with
              hquiet | ⟨id, fileContent, hread, hid, hids⟩
            · exact Or.inl hquiet
            · exact Or.inr ⟨id, ⟨request, rest, line, headers, rfl, hline, hheaders,
                Or.inl ⟨hupload, fileContent, hread⟩⟩, hid, hids⟩
        · split at h
          · next hcommand =>
            rcases handleCommandBody_gated h with
              hquiet | ⟨id, command, hcut, hreq, hrules, hid, hids⟩
            · exact Or.inl hquiet
            · exact Or.inr ⟨id, ⟨request, rest, line, headers, rfl, hline, hheaders,
                Or.inr ⟨hcommand, command, hcut, hreq, hrules⟩⟩, hid, hids⟩
          · cases h
            exact Or.inl (Quiet.refused _ _)

/-! ## Runs -/

inductive GateEvent
  | authorized (env : Environment) (chunks : List Bytes) (server after : Server)
  | commanded (env : Environment) (chunks : List Bytes) (server : Server) (outcome : Outcome)

/-- The steps of the two servers.  A request that makes the program end has no step. -/
inductive GateStep : Server → Server → List GateEvent → Prop
  | authorize {server after : Server} {reply : Option Reply} (env : Environment)
      (chunks : List Bytes) (h : handleAuthorizeRequest env chunks server = .ok (reply, after)) :
      GateStep server after [.authorized env chunks server after]
  | command {server : Server} {outcome : Outcome} (env : Environment) (chunks : List Bytes)
      (h : handleCommandRequest env chunks server = .ok outcome) :
      GateStep server outcome.server [.commanded env chunks server outcome]
  /-- The loop of the authorization server cleans up between requests. -/
  | cleanup (server : Server) (now : Time) :
      GateStep server
        { server with sessions := server.sessions.removeExpiredSessions now } []
  /-- Rules and variables change in other threads. -/
  | other (server : Server) (engine : Engine) :
      GateStep server { server with engine := engine } []

/-- The id was the answer to a request with the right password. -/
def IssuedIn (history : List GateEvent) (id : Bytes) : Prop :=
  ∃ env chunks server after, GateEvent.authorized env chunks server after ∈ history ∧
    HasPassword env chunks ∧ id = generateSessionId env.values

/-- A request with an effect carries a valid id, which was issued before.  An
authorization request affects no session but the one it issues. -/
def Gated (before : List GateEvent) : GateEvent → Prop
  | .commanded env chunks server outcome =>
    Affects server outcome → ∃ id, Carries chunks id ∧
      id ∈ (server.sessions.removeExpiredSessions env.cleanupTime).validSessions ∧
      IssuedIn before id
  | .authorized env chunks server after =>
    after.engine = server.engine ∧ after.firmware = server.firmware ∧
      ∀ id : Bytes, after.sessions.validSessions[id]? ≠ server.sessions.validSessions[id]? →
        HasPassword env chunks ∧ id = generateSessionId env.values

theorem IssuedIn.mono {history events : List GateEvent} {id : Bytes} (h : IssuedIn history id) :
    IssuedIn (history ++ events) id := by
  obtain ⟨env, chunks, server, after, hmem, hissued⟩ := h
  exact ⟨env, chunks, server, after, List.mem_append_left _ hmem, hissued⟩

/-- The step lemma: ids stay issued, and the event of the step is gated. -/
theorem GateStep.gated {server after : Server} {history events : List GateEvent}
    (hstep : GateStep server after events)
    (hissued : ∀ id ∈ server.sessions.validSessions, IssuedIn history id)
    (hlawful : Lawful Gated history) :
    (∀ id ∈ after.sessions.validSessions, IssuedIn (history ++ events) id) ∧
      Lawful Gated (history ++ events) := by
  cases hstep with
  | authorize env chunks h =>
    rcases handleAuthorizeRequest_issues h with rfl | ⟨hpassword, _, rfl⟩
    · refine ⟨fun id hid => (hissued id hid).mono, hlawful.concat ⟨rfl, rfl, fun id hne => ?_⟩⟩
      exact absurd rfl hne
    · refine ⟨fun id hid => ?_, hlawful.concat ⟨rfl, rfl, fun id hne => ⟨hpassword, ?_⟩⟩⟩
      · rcases Std.ExtTreeMap.mem_insert.mp hid with heq | hmem
        · rw [← Std.LawfulEqCmp.eq_of_compare heq]
          exact ⟨env, chunks, _, _, List.mem_append_right _ (List.mem_singleton_self _), hpassword,
            rfl⟩
        · exact (hissued id hmem).mono
      · by_contra hother
        apply hne
        rw [Sessions.touch_validSessions, Std.ExtTreeMap.getElem?_insert, if_neg]
        intro heq
        exact hother (Std.LawfulEqCmp.eq_of_compare heq).symm
  | command env chunks h =>
    rcases handleCommandRequest_gated h with hquiet | ⟨id, hcarries, hid, hids⟩
    · refine ⟨fun id hid => (hissued id (hquiet.keepsIds id hid)).mono, hlawful.concat ?_⟩
      intro haffects
      exact absurd haffects hquiet.not_affects
    · refine ⟨fun other hother => (hissued other (hids other hother)).mono, hlawful.concat ?_⟩
      intro _
      exact ⟨id, hcarries, hid, hissued id (cleaned_mem hid)⟩
  | cleanup now =>
    rw [List.append_nil]
    exact ⟨fun id hid => hissued id (cleaned_mem hid), hlawful⟩
  | other engine =>
    rw [List.append_nil]
    exact ⟨hissued, hlawful⟩

/-- In every run, every session id was issued for the right password, and every
request with an effect carried a valid id. -/
theorem requests_gated {server : Server} {history : List GateEvent}
    (h : Run GateStep {} server history) :
    (∀ id ∈ server.sessions.validSessions, IssuedIn history id) ∧ Lawful Gated history := by
  refine h.invariant (P := fun server history =>
    (∀ id ∈ server.sessions.validSessions, IssuedIn history id) ∧ Lawful Gated history)
    ⟨fun id hid => ?_, Lawful.nil⟩ fun _ _ _ _ hp hstep => hstep.gated hp.1 hp.2
  simp at hid

def firstId : Bytes := generateSessionId fun _ => 0

def loginRequest : Bytes := ascii "POST /authorize HTTP/1.1\r\nContent-Length: 2\r\n\r\npw"

def readRequest : Bytes :=
  ascii "POST /command HTTP/1.1\r\nContent-Length: 139\r\n\r\n" ++
    (firstId ++ ascii " READ 15206")

/-- A login and a command that is forwarded to the monitor clients. -/
theorem command_after_login :
    ∃ server history, Run GateStep {} server history ∧
      (∃ id ∈ server.sessions.validSessions, IssuedIn history id) ∧
      ∃ id, Carries [readRequest] id ∧ IssuedIn history id := by
  have hstart : Run GateStep {} {} [] := .start
  have hlogin := hstart.next (.authorize { authFile := some (ascii "pw\n") } [loginRequest] rfl)
  have hcommand := hlogin.next (.command {} [readRequest] rfl)
  obtain ⟨hissued, hlawful⟩ := requests_gated hcommand
  have hgated := hlawful.at_end
  obtain ⟨id, hcarries, _, hid⟩ := hgated
    (Or.inr (Or.inr (Or.inr (Or.inl (Option.some_ne_none (ascii "READ 15206"))))))
  exact ⟨_, _, hcommand, ⟨firstId, by decide, hissued firstId (by decide)⟩, id, hcarries, hid.mono⟩

end InverterMonitor.Http
