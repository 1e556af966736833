import InverterMonitor.Server.CommandReplies
import InverterMonitor.Server.LoadRules
import InverterMonitor.Server.Reception

/-!
# Requests that end a server thread

An exception that leaves a handler ends the program.

* `receive_returns`: the reading part returns when `std::stoul` takes every
  `Content-Length` that it meets;
* `requests_answered_iff`: a handler returns, with one answer to every request,
  exactly when these lengths, and the numbers of a rules file that it is told to
  reload, can be converted.
-/

namespace InverterMonitor.Http
open Text Cxx Json Rules

/-! ## Lengths -/

/-- What `std::stoul` is given for a header line. -/
def lengthText (headerLine : Bytes) : Option NumericText :=
  match cutAt ':' (stripCarriageReturn headerLine) with
  | none => none
  | some (name, value) =>
    if lower (trimString name) = ascii "content-length" then some (.stoul (trimString value))
    else none

/-- The conversions that a handler makes while it reads the headers. -/
def lengthTexts (wanted : RequestLine → Bool) : List Bytes → List NumericText
  | [] => []
  | request :: _ =>
    match readRequestLine request with
    | .error _ => []
    | .ok line =>
      if line.method = ascii "OPTIONS" then []
      else if wanted line then
        (getLines ((request.drop (line.lineEnd + 2)).take line.headerEnd)).filterMap lengthText
      else []

/-- Whether a header line is read depends on its own length only. -/
theorem readHeader_returns (headers : Headers) (headerLine : Bytes) :
    (∃ read, readHeader headers headerLine = .ok read) ↔
      ∀ t ∈ lengthText headerLine, t.convertible = true := by
  unfold readHeader lengthText
  cases cutAt ':' (stripCarriageReturn headerLine) with
  | none => simp
  | some header =>
    obtain ⟨name, value⟩ := header
    simp only
    by_cases hlength : lower (trimString name) = ascii "content-length"
    · rw [if_pos hlength, if_pos hlength]
      cases hvalue : stoul (trimString value) with
      | error e => simp [Except.map, NumericText.convertible, hvalue, Except.toBool]
      | ok n => simp [Except.map, NumericText.convertible, hvalue, Except.toBool]
    · rw [if_neg hlength, if_neg hlength]
      split <;> simp

theorem foldlM_readHeader_returns (lines : List Bytes) (headers : Headers) :
    (∃ read, lines.foldlM readHeader headers = .ok read) ↔
      ∀ t ∈ lines.filterMap lengthText, t.convertible = true := by
  induction lines generalizing headers with
  | nil => simp [pure, Except.pure]
  | cons headerLine lines ih =>
    have hline := readHeader_returns headers headerLine
    have hmem : (∀ t ∈ (headerLine :: lines).filterMap lengthText, t.convertible = true) ↔
        (∀ t ∈ lengthText headerLine, t.convertible = true) ∧
          ∀ t ∈ lines.filterMap lengthText, t.convertible = true := by
      simp only [List.mem_filterMap, List.mem_cons, Option.mem_def]
      constructor
      · intro h
        refine ⟨fun t ht => h t ⟨headerLine, Or.inl rfl, ht⟩, ?_⟩
        rintro t ⟨other, hother, ht⟩
        exact h t ⟨other, Or.inr hother, ht⟩
      · rintro ⟨hfirst, hrest⟩ t ⟨other, rfl | hother, ht⟩
        · exact hfirst t ht
        · exact hrest t ⟨other, hother, ht⟩
    rw [hmem, ← hline, List.foldlM_cons]
    cases readHeader headers headerLine with
    | error e => simp [bind, Except.bind]
    | ok read => simpa [bind, Except.bind] using ih read

theorem receive_returns (wanted : RequestLine → Bool) (chunks : List Bytes) :
    (∃ received, receive wanted chunks = .ok received) ↔
      ∀ t ∈ lengthTexts wanted chunks, t.convertible = true := by
  cases chunks with
  | nil => simp [receive, lengthTexts]
  | cons request chunks =>
    unfold receive lengthTexts
    simp only
    cases readRequestLine request with
    | error reply => simp
    | ok line =>
      simp only
      split
      · simp
      split
      · rw [← foldlM_readHeader_returns _ {}]
        unfold readHeaders
        cases (getLines ((request.drop (line.lineEnd + 2)).take line.headerEnd)).foldlM
          readHeader {} <;> simp [Except.map]
      · simp

/-! ## Rules files -/

/-- Every conversion in the rules file succeeds. -/
def FileConverts (env : Environment) : Prop :=
  ∀ content, env.rulesFile = some content → ∀ t ∈ numericTexts content, t.convertible = true

theorem loadRules_returns (env : Environment) (store : RuleStore) :
    (∃ result, loadRules env.rulesFile store = .ok result) ↔ FileConverts env := by
  unfold FileConverts
  cases env.rulesFile with
  | none => simp [loadRules]
  | some content =>
    simp only [Option.some.injEq, forall_eq', loadRules]
    rcases parseRulesArray_settles content with ⟨⟨rules, h⟩ | h, htexts⟩ | ⟨⟨e, h⟩, t, ht, hbad⟩
    · rw [h]
      exact iff_of_true ⟨_, rfl⟩ htexts
    · rw [h]
      exact iff_of_true ⟨_, rfl⟩ htexts
    · rw [h]
      refine iff_of_false ?_ fun hall => ?_
      · rintro ⟨result, hresult⟩
        cases hresult
      · rw [hall t ht] at hbad
        cases hbad

theorem reloadRules_returns (env : Environment) (engine : Engine) :
    (∃ handled, reloadRules env engine = .ok handled) ↔ FileConverts env := by
  rw [← loadRules_returns env engine.store]
  unfold reloadRules
  cases loadRules env.rulesFile engine.store with
  | error failure => simp [bind, Except.bind]
  | ok result =>
    obtain ⟨loaded, store⟩ := result
    cases loaded <;> simp [bind, Except.bind, pure, Except.pure]

/-! ## Answers -/

/-- The handler returns and sends a response. -/
def Answers (result : Except Failure Outcome) : Prop :=
  ∃ outcome, result = .ok outcome ∧ outcome.reply.isSome = true

theorem answers_ok {server : Server} {reply : Reply} {run : List Executed}
    {forwarded : Option Bytes} : Answers (.ok ⟨server, some reply, run, forwarded⟩) :=
  ⟨_, rfl, rfl⟩

/-- The command for which the rules are loaded again. -/
def Reloads (command : Bytes) : Prop :=
  ∃ args, nextWord command = some (ascii "RELOADRULES", args)

theorem handleHttpReqCommand_returns {env : Environment} {command : Bytes}
    (hlast : command.getLast? ≠ some newline) (engine : Engine) :
    (∃ handled, handleHttpReqCommand env true command engine = .ok handled) ↔
      (Reloads command → FileConverts env) := by
  unfold handleHttpReqCommand Reloads
  simp only [if_neg hlast, ↓reduceIte]
  cases nextWord command with
  | none => simp
  | some word =>
    obtain ⟨token, args⟩ := word
    simp only [Option.some.injEq, Prod.mk.injEq, exists_and_left, exists_eq', and_true]
    by_cases hget : token = ascii "GETRULES"
    · rw [if_pos hget]
      refine iff_of_true ⟨_, rfl⟩ fun hreload => ?_
      rw [hget] at hreload
      exact absurd hreload (by decide)
    rw [if_neg hget]
    by_cases hreload : token = ascii "RELOADRULES"
    · rw [if_pos hreload, reloadRules_returns]
      exact ⟨fun h _ => h, fun h => h hreload⟩
    rw [if_neg hreload]
    refine iff_of_true ?_ fun h => absurd h hreload
    repeat' split
    all_goals exact ⟨_, rfl⟩

theorem handleOpenCommand_answers (env : Environment) (body : Bytes) (invalid : String)
    (server : Server) : Answers (handleOpenCommand env body invalid server) := by
  obtain ⟨handled, h, _⟩ := handleHttpReqCommand_open env body server.engine
  unfold handleOpenCommand
  simp only [h, ok_bind]
  exact answers_ok

theorem handleSessionCommand_answers {env : Environment} {command : Bytes} {server : Server}
    (hlast : command.getLast? ≠ some newline) :
    Answers (handleSessionCommand env command server) ↔ (Reloads command → FileConverts env) := by
  rw [← handleHttpReqCommand_returns hlast server.engine]
  unfold handleSessionCommand
  cases handleHttpReqCommand env true command server.engine with
  | error failure => simp [Answers, bind, Except.bind]
  | ok handled =>
    refine iff_of_true ?_ ⟨_, rfl⟩
    simp only [ok_bind]
    split
    · exact answers_ok
    · exact answers_ok

/-- A session that is valid after the clean-up asks for the rules to be loaded again. -/
def RequestsReload (env : Environment) (body : Bytes) (server : Server) : Prop :=
  ∃ id rest, commandSession body = some id ∧ cutAt ' ' body = some (id, rest) ∧
    id ∈ (env.cleaned server).validSessions ∧ Reloads (trimString rest)

theorem not_requestsReload {env : Environment} {body : Bytes} {server : Server}
    (h : commandSession body = none) : ¬RequestsReload env body server := by
  rintro ⟨id, rest, hsession, _⟩
  rw [h] at hsession
  cases hsession

theorem handleCommandBody_answers (env : Environment) (body : Bytes) (server : Server) :
    Answers (handleCommandBody env body server) ↔
      (RequestsReload env body server → FileConverts env) := by
  have hcases := handleCommandBody_cases env body server
  generalize handleCommandBody env body server = result at hcases ⊢
  cases hcases with
  | refused hsession htext =>
    exact iff_of_true answers_ok fun h => absurd h (not_requestsReload hsession)
  | opened hsession hinvalid =>
    exact iff_of_true (handleOpenCommand_answers ..)
      fun h => absurd h (not_requestsReload hsession)
  | rejected hsession hid =>
    refine iff_of_true answers_ok ?_
    rintro ⟨id, rest, hother, _, hvalid, _⟩
    rw [hsession] at hother
    cases hother
    exact absurd hvalid hid
  | accepted hsession hcut hid =>
    rw [handleSessionCommand_answers (trimString_getLast _)]
    constructor
    · rintro h ⟨id, rest, _, hother, _, hreloads⟩
      rw [hcut] at hother
      cases hother
      exact h hreloads
    · intro h hreloads
      exact h ⟨_, _, hsession, hcut, hid, hreloads⟩

theorem writeFirmware_answers (env : Environment) (fileContent : Bytes) (server : Server) :
    Answers (.ok (writeFirmware env fileContent server)) := by
  unfold writeFirmware
  split
  · exact answers_ok
  · exact answers_ok

theorem handleUpload_answers (env : Environment) (headers : Headers) (body : Bytes)
    (server : Server) : Answers (.ok (handleUpload env headers body server)) := by
  have hcases := handleUpload_cases env headers body server
  generalize handleUpload env headers body server = outcome at hcases ⊢
  cases hcases with
  | refused hread => exact answers_ok
  | rejected hread hid => exact answers_ok
  | accepted hread hid => exact writeFirmware_answers ..

/-! ## The handlers -/

theorem receive_silent {wanted : RequestLine → Bool} {chunks : List Bytes} {received : Received}
    (h : receive wanted chunks = .ok received) : received = .silent ↔ chunks = [] := by
  cases chunks with
  | nil =>
    cases h
    exact iff_of_true rfl rfl
  | cons request chunks =>
    refine iff_of_false ?_ (List.cons_ne_nil _ _)
    rintro rfl
    unfold receive at h
    simp only at h
    split at h
    · cases h
    split at h
    · cases h
    split at h
    · cases hheaders : readHeaders request _ with
      | error e =>
        rw [hheaders] at h
        cases h
      | ok headers =>
        rw [hheaders] at h
        cases h
    · cases h

/-- A command for which the rules are loaded again finds numbers in their file. -/
def ReloadConverts (env : Environment) (server : Server) : Received → Prop
  | .silent => True
  | .refused _ => True
  | .request line _ body =>
    isCommand line = true → RequestsReload env (trimString body) server → FileConverts env

theorem not_isCommand_of_isUpload {line : RequestLine} (h : isUpload line = true) :
    ¬isCommand line = true := by
  unfold isUpload at h
  unfold isCommand
  rw [decide_eq_true_eq] at h ⊢
  rintro ⟨_, hpath⟩
  rw [h.2] at hpath
  exact absurd hpath (by decide)

theorem actOn_answers (env : Environment) (server : Server) (received : Received) :
    (∃ outcome, actOn env server received = .ok outcome ∧
      (outcome.reply.isSome = true ↔ received ≠ .silent)) ↔ ReloadConverts env server received := by
  cases received with
  | silent => exact iff_of_true ⟨_, rfl, by simp⟩ trivial
  | refused reply => exact iff_of_true ⟨_, rfl, by simp⟩ trivial
  | request line headers body =>
    have hanswers : (∃ outcome, actOn env server (.request line headers body) = .ok outcome ∧
        (outcome.reply.isSome = true ↔ Received.request line headers body ≠ .silent)) ↔
        Answers (actOn env server (.request line headers body)) := by
      simp [Answers]
    rw [hanswers]
    unfold actOn ReloadConverts
    simp only
    by_cases hupload : isUpload line = true
    · rw [if_pos hupload]
      refine iff_of_true ?_ fun hcommand => absurd hcommand (not_isCommand_of_isUpload hupload)
      split
      · exact answers_ok
      · exact handleUpload_answers ..
    rw [if_neg hupload]
    by_cases hcommand : isCommand line = true
    · rw [if_pos hcommand, handleCommandBody_answers]
      exact ⟨fun h _ => h, fun h => h hcommand⟩
    · rw [if_neg hcommand]
      exact iff_of_true answers_ok fun h => absurd h hcommand

/-- Every conversion on the way of a request through `handleCommandRequest` succeeds. -/
def CommandConverts (env : Environment) (chunks : List Bytes) (server : Server) : Prop :=
  (∀ t ∈ lengthTexts (fun _ => true) chunks, t.convertible = true) ∧
    ∀ received, receive (fun _ => true) chunks = .ok received → ReloadConverts env server received

/-- The handler returns, with a response if it has received anything. -/
def CommandReturns (env : Environment) (chunks : List Bytes) (server : Server) : Prop :=
  ∃ outcome, handleCommandRequest env chunks server = .ok outcome ∧
    (outcome.reply.isSome = true ↔ chunks ≠ [])

def AuthorizeReturns (env : Environment) (chunks : List Bytes) (server : Server) : Prop :=
  ∃ reply after, handleAuthorizeRequest env chunks server = .ok (reply, after) ∧
    (reply.isSome = true ↔ chunks ≠ [])

theorem commandReturns_iff (env : Environment) (chunks : List Bytes) (server : Server) :
    CommandReturns env chunks server ↔ CommandConverts env chunks server := by
  unfold CommandReturns CommandConverts
  rw [handleCommandRequest_receive, ← receive_returns]
  cases hreceive : receive (fun _ => true) chunks with
  | error e => simp [bind, Except.bind]
  | ok received =>
    have hsilent := not_congr (receive_silent hreceive)
    simp only [raise_ok, ok_bind, Except.ok.injEq, exists_eq', true_and, forall_eq', ← hsilent]
    exact actOn_answers env server received

/-- What is left of an authorization request never fails. -/
theorem authorizeReturns_iff (env : Environment) (chunks : List Bytes) (server : Server) :
    AuthorizeReturns env chunks server ↔
      ∀ t ∈ lengthTexts isAuthorization chunks, t.convertible = true := by
  unfold AuthorizeReturns handleAuthorizeRequest
  rw [authorize_receive, ← receive_returns]
  cases hreceive : receive isAuthorization chunks with
  | error e => simp [bind, Except.bind, Except.map]
  | ok received =>
    refine iff_of_true ?_ ⟨received, rfl⟩
    simp only [Except.map, ok_bind, ne_eq, ← receive_silent hreceive]
    cases received with
    | silent => exact ⟨_, _, rfl, by simp⟩
    | refused reply => exact ⟨_, _, rfl, by simp⟩
    | request line headers body =>
      cases hpassword : checkPassword env (.request line headers body) with
      | silent =>
        unfold checkPassword at hpassword
        simp only at hpassword
        repeat' split at hpassword
        all_goals cases hpassword
      | refused reply => exact ⟨_, _, rfl, by simp⟩
      | issued body storedPassword => exact ⟨_, _, rfl, by simp⟩

/-- The chunks are the results of `recv`, none of which is empty. -/
theorem requests_answered_iff (env : Environment) (chunks : List Bytes) (server : Server) :
    (CommandReturns env chunks server ↔ CommandConverts env chunks server) ∧
      (AuthorizeReturns env chunks server ↔
        ∀ t ∈ lengthTexts isAuthorization chunks, t.convertible = true) :=
  ⟨commandReturns_iff env chunks server, authorizeReturns_iff env chunks server⟩

def badLengthRequest : Bytes := ascii "POST /command HTTP/1.1\r\nContent-Length: abc\r\n\r\n"

/-- Nobody has to be logged in for `std::stoul` to throw. -/
theorem bad_length_raises : ¬CommandReturns {} [badLengthRequest] {} := by
  rintro ⟨outcome, h, _⟩
  have hraises : handleCommandRequest {} [badLengthRequest] {} =
      .error (.raised .invalidArgument) := rfl
  rw [hraises] at h
  cases h

end InverterMonitor.Http
