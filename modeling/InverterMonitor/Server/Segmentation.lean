import InverterMonitor.Server.Reception

/-!
# Requests in pieces

TCP may deliver a request in any pieces.  The handlers look for the end of the
headers in the first piece only.

* `receive_congr`: where both first pieces hold the end of the headers and the same
  text that is searched for headers, the rest may arrive in any pieces;
* `segmentation_iff`: a request gets the same treatment in all pieces exactly when
  no first piece can hold the end of its headers, and then it is refused.
-/

namespace InverterMonitor.Http
open Text Cxx Json Rules

/-! ## The first piece -/

theorem headerMark_ne_nil : lineBreak ++ lineBreak ≠ [] := by decide

theorem lineBreak_ne_nil : lineBreak ≠ [] := by decide

def missingHeaders : Reply := badRequest "Missing headers"

theorem readRequestLine_missing {request : Bytes}
    (h : find (lineBreak ++ lineBreak) request = none) :
    readRequestLine request = .error missingHeaders := by
  unfold readRequestLine
  rw [h]
  rfl

theorem readRequestLine_found {request : Bytes} {headerEnd : Nat}
    (h : find (lineBreak ++ lineBreak) request = some headerEnd) :
    ∃ line, readRequestLine request = .ok line ∧ line.headerEnd = headerEnd ∧
      find lineBreak request = some line.lineEnd := by
  obtain ⟨hmark, _⟩ := (find_eq_some_iff headerMark_ne_nil).mp h
  obtain ⟨lineEnd, hline⟩ := find_isSome ((List.prefix_append lineBreak lineBreak).trans hmark)
  unfold readRequestLine
  rw [h, hline]
  exact ⟨_, rfl, rfl, rfl⟩

theorem readRequestLine_ok {request : Bytes} {line : RequestLine}
    (h : readRequestLine request = .ok line) :
    find (lineBreak ++ lineBreak) request = some line.headerEnd ∧
      find lineBreak request = some line.lineEnd := by
  cases hmark : find (lineBreak ++ lineBreak) request with
  | none =>
    rw [readRequestLine_missing hmark] at h
    cases h
  | some headerEnd =>
    obtain ⟨other, hother, hheader, hline⟩ := readRequestLine_found hmark
    rw [hother] at h
    cases h
    rw [hheader]
    exact ⟨rfl, hline⟩

/-- The request line is the same in every longer text. -/
theorem readRequestLine_append {request : Bytes} {line : RequestLine}
    (h : readRequestLine request = .ok line) (rest : Bytes) :
    readRequestLine (request ++ rest) = .ok line := by
  obtain ⟨hmark, hline⟩ := readRequestLine_ok h
  have htake : (request ++ rest).take line.lineEnd = request.take line.lineEnd := by
    apply List.take_append_of_le_length
    have := find_le lineBreak_ne_nil hline
    omega
  unfold readRequestLine at h ⊢
  rw [hmark, hline] at h
  rw [find_append headerMark_ne_nil hmark, find_append lineBreak_ne_nil hline]
  simp only [htake] at h ⊢
  exact h

/-! ## The body -/

/-- The body does not depend on where the pieces end. -/
theorem readBody_flatten {request : Bytes} {line : RequestLine} {chunks : List Bytes}
    (hline : readRequestLine request = .ok line) (h : ∀ chunk ∈ chunks, chunk ≠ [])
    (headers : Headers) :
    readBody request line headers chunks =
      (((request :: chunks).flatten).drop (line.headerEnd + 4)).take headers.contentLength := by
  have hend : line.headerEnd + 4 ≤ request.length :=
    find_le headerMark_ne_nil (readRequestLine_ok hline).1
  unfold readBody
  rw [receiveBody_take h, List.flatten_cons, List.drop_append_of_le_length hend]

/-! ## Pieces of one request -/

/-- `RECV_BUFFER_SIZE` of `main.cpp` -/
def recvBufferSize : Nat := 1024

/-- Results of `recv` that bring the request. -/
structure Pieces (request : Bytes) (chunks : List Bytes) : Prop where
  flatten : chunks.flatten = request
  nonempty : ∀ chunk ∈ chunks, chunk ≠ []
  fits : ∀ chunk ∈ chunks, chunk.length ≤ recvBufferSize - 1

/-- Both first pieces hold the end of the headers, and the same text that is searched
for headers. -/
def ReadAlike (first first' : Bytes) : Prop :=
  ∃ line line', readRequestLine first = .ok line ∧ readRequestLine first' = .ok line' ∧
    (first.drop (line.lineEnd + 2)).take line.headerEnd =
      (first'.drop (line'.lineEnd + 2)).take line'.headerEnd

/-- Neither first piece holds the end of the headers. -/
def MissAlike (first first' : Bytes) : Prop :=
  find (lineBreak ++ lineBreak) first = none ∧ find (lineBreak ++ lineBreak) first' = none

theorem receive_missing {first : Bytes} (h : find (lineBreak ++ lineBreak) first = none)
    (wanted : RequestLine → Bool) (chunks : List Bytes) :
    receive wanted (first :: chunks) = .ok (.refused missingHeaders) := by
  unfold receive
  simp only [readRequestLine_missing h]

theorem Pieces.readRequestLine_eq {request first : Bytes} {chunks : List Bytes}
    {line : RequestLine} (h : Pieces request (first :: chunks))
    (hline : readRequestLine first = .ok line) : readRequestLine request = .ok line := by
  rw [← h.flatten, List.flatten_cons]
  exact readRequestLine_append hline chunks.flatten

theorem receive_congr {request first first' : Bytes} {chunks chunks' : List Bytes}
    (h : Pieces request (first :: chunks)) (h' : Pieces request (first' :: chunks'))
    (halike : MissAlike first first' ∨ ReadAlike first first') (wanted : RequestLine → Bool) :
    receive wanted (first :: chunks) = receive wanted (first' :: chunks') := by
  rcases halike with ⟨hmissing, hmissing'⟩ | ⟨line, line', hline, hline', htext⟩
  · rw [receive_missing hmissing, receive_missing hmissing']
  · have hsame : line = line' := by
      have hwhole := h.readRequestLine_eq hline
      rw [h'.readRequestLine_eq hline'] at hwhole
      exact (Except.ok.inj hwhole).symm
    subst hsame
    have hbody : ∀ headers, readBody first line headers chunks =
        readBody first' line headers chunks' := by
      intro headers
      rw [readBody_flatten hline fun chunk hchunk => h.nonempty chunk (List.mem_cons_of_mem _ hchunk),
        readBody_flatten hline' fun chunk hchunk =>
          h'.nonempty chunk (List.mem_cons_of_mem _ hchunk), h.flatten, h'.flatten]
    unfold receive readHeaders
    simp only [hline, hline', htext, hbody]

/-! ## Telling a refusal of the first piece -/

/-- The answer does not say that the headers are missing. -/
def Outcome.Found (outcome : Outcome) : Prop := outcome.reply ≠ some missingHeaders

theorem found_reply {server : Server} {reply : Reply} {run : List Executed}
    {forwarded : Option Bytes} (h : reply ≠ missingHeaders) :
    Outcome.Found ⟨server, some reply, run, forwarded⟩ := by
  intro heq
  exact h (Option.some.inj heq)

theorem ok_ne_missingHeaders (body : Bytes) : ok body ≠ missingHeaders := by
  intro h
  have hstatus := congrArg Reply.status h
  exact absurd hstatus (show ascii "200 OK" ≠ ascii "400 Bad Request" by decide)

theorem handleOpenCommand_found {env : Environment} {body : Bytes} {invalid : String}
    {server : Server} {outcome : Outcome}
    (h : handleOpenCommand env body invalid server = .ok outcome)
    (hinvalid : badRequest invalid ≠ missingHeaders) : outcome.Found := by
  obtain ⟨handled, _, h⟩ := bind_eq_ok.mp h
  cases h
  refine found_reply ?_
  split
  · exact ok_ne_missingHeaders _
  · exact hinvalid

theorem handleSessionCommand_found {env : Environment} {command : Bytes} {server : Server}
    {outcome : Outcome} (h : handleSessionCommand env command server = .ok outcome) :
    outcome.Found := by
  obtain ⟨handled, _, h⟩ := bind_eq_ok.mp h
  simp only at h
  split at h
  · cases h
    exact found_reply (ok_ne_missingHeaders _)
  · cases h
    exact found_reply (ok_ne_missingHeaders _)

theorem handleCommandBody_found {env : Environment} {body : Bytes} {server : Server}
    {outcome : Outcome} (h : handleCommandBody env body server = .ok outcome) :
    outcome.Found := by
  have hcases := handleCommandBody_cases env body server
  rw [h] at hcases
  generalize hresult : Except.ok outcome = result at hcases
  cases hcases with
  | refused hsession htext =>
    cases hresult
    refine found_reply ?_
    intro heq
    have htexts : ∀ text ∈ ["Empty command", "Missing session id", "Missing command"],
        badRequest text ≠ missingHeaders := by decide
    exact htexts _ htext heq
  | opened hsession hinvalid =>
    have htexts : ∀ text ∈ ["Invalid REQ command", "Invalid GETRULES command"],
        badRequest text ≠ missingHeaders := by decide
    exact handleOpenCommand_found hresult.symm (htexts _ hinvalid)
  | rejected hsession hid =>
    cases hresult
    exact found_reply (by decide)
  | accepted hsession hcut hid => exact handleSessionCommand_found hresult.symm

theorem readUpload_found {headers : Headers} {body : Bytes} {reply : Reply}
    (h : readUpload headers body = .error reply) : reply ≠ missingHeaders := by
  unfold readUpload at h
  split at h
  · cases h
    decide
  split at h
  · cases h
    decide
  split at h
  · cases h
    decide
  split at h
  · cases h
    decide
  · cases h

theorem writeFirmware_found (env : Environment) (fileContent : Bytes) (server : Server) :
    (writeFirmware env fileContent server).Found := by
  unfold writeFirmware
  split
  · exact found_reply (by decide)
  · refine found_reply ?_
    split
    · exact ok_ne_missingHeaders _
    · decide

theorem handleUpload_found (env : Environment) (headers : Headers) (body : Bytes)
    (server : Server) : (handleUpload env headers body server).Found := by
  have hcases := handleUpload_cases env headers body server
  generalize handleUpload env headers body server = outcome at hcases ⊢
  cases hcases with
  | refused hread => exact found_reply (readUpload_found hread)
  | rejected hread hid => exact found_reply (by decide)
  | accepted hread hid => exact writeFirmware_found env _ _

theorem actOn_found {env : Environment} {server : Server} {received : Received}
    {outcome : Outcome} (h : actOn env server received = .ok outcome)
    (hreceived : received ≠ .refused missingHeaders) : outcome.Found := by
  cases received with
  | silent =>
    cases h
    exact fun heq => nomatch heq
  | refused reply =>
    cases h
    refine found_reply ?_
    rintro rfl
    exact hreceived rfl
  | request line headers body =>
    unfold actOn at h
    simp only at h
    split at h
    · split at h
      · cases h
        exact found_reply (by decide)
      · cases h
        exact handleUpload_found env headers body server
    split at h
    · exact handleCommandBody_found h
    · cases h
      exact found_reply (by decide)

theorem checkPassword_found {env : Environment} {received : Received}
    (hreceived : received ≠ .refused missingHeaders) :
    checkPassword env received ≠ .refused missingHeaders := by
  cases received with
  | silent => exact fun heq => nomatch heq
  | refused reply =>
    intro heq
    exact hreceived (congrArg _ (Authorization.refused.inj heq))
  | request line headers body =>
    intro heq
    simp only [checkPassword] at heq
    repeat' split at heq
    all_goals
      first
      | exact absurd (Authorization.refused.inj heq) (by decide)
      | cases heq

theorem receive_found {first : Bytes} {line : RequestLine}
    (h : readRequestLine first = .ok line) (wanted : RequestLine → Bool) (chunks : List Bytes) :
    receive wanted (first :: chunks) ≠ .ok (.refused missingHeaders) := by
  unfold receive
  simp only [h]
  split
  · intro heq
    exact absurd (Received.refused.inj (Except.ok.inj heq)) (by decide)
  split
  · cases readHeaders first line with
    | error e => exact fun heq => nomatch heq
    | ok headers => exact fun heq => nomatch heq
  · intro heq
    exact absurd (Received.refused.inj (Except.ok.inj heq)) (by decide)

/-! ## All pieces -/

/-- A first piece can hold the end of the headers. -/
def HeadersFit (request : Bytes) : Prop :=
  ∃ headerEnd, find (lineBreak ++ lineBreak) (request.take (recvBufferSize - 1)) = some headerEnd

def CommandIndependent (request : Bytes) : Prop :=
  ∀ chunks chunks', Pieces request chunks → Pieces request chunks' → ∀ env server,
    handleCommandRequest env chunks server = handleCommandRequest env chunks' server

def AuthorizeIndependent (request : Bytes) : Prop :=
  ∀ chunks chunks', Pieces request chunks → Pieces request chunks' → ∀ env server,
    handleAuthorizeRequest env chunks server = handleAuthorizeRequest env chunks' server

theorem handleCommandRequest_congr {chunks chunks' : List Bytes}
    (h : receive (fun _ => true) chunks = receive (fun _ => true) chunks') (env : Environment)
    (server : Server) :
    handleCommandRequest env chunks server = handleCommandRequest env chunks' server := by
  rw [handleCommandRequest_receive, handleCommandRequest_receive, h]

theorem handleAuthorizeRequest_congr {chunks chunks' : List Bytes}
    (h : receive isAuthorization chunks = receive isAuthorization chunks') (env : Environment)
    (server : Server) :
    handleAuthorizeRequest env chunks server = handleAuthorizeRequest env chunks' server := by
  unfold handleAuthorizeRequest
  rw [authorize_receive, authorize_receive, h]

/-- A first piece holds the end of the headers only where it fits. -/
theorem Pieces.find_eq_none {request first : Bytes} {chunks : List Bytes}
    (h : Pieces request (first :: chunks)) (hfit : ¬HeadersFit request) :
    find (lineBreak ++ lineBreak) first = none := by
  cases hfind : find (lineBreak ++ lineBreak) first with
  | none => rfl
  | some headerEnd =>
    exfalso
    apply hfit
    have hbegins : first <+: request.take (recvBufferSize - 1) := by
      rw [List.prefix_take_iff, ← h.flatten]
      exact ⟨List.prefix_append _ _, h.fits first (List.mem_cons_self ..)⟩
    obtain ⟨rest, hrest⟩ := hbegins
    exact ⟨headerEnd, by rw [← hrest]; exact find_append headerMark_ne_nil hfind rest⟩

theorem Pieces.eq_nil {chunks : List Bytes} (h : Pieces [] chunks) : chunks = [] := by
  cases chunks with
  | nil => rfl
  | cons first chunks =>
    have hflatten := h.flatten
    rw [List.flatten_cons, List.append_eq_nil_iff] at hflatten
    exact absurd hflatten.1 (h.nonempty first (List.mem_cons_self ..))

theorem receive_eq_of_not_fit {request : Bytes} {chunks chunks' : List Bytes}
    (hfit : ¬HeadersFit request) (h : Pieces request chunks) (h' : Pieces request chunks')
    (wanted : RequestLine → Bool) : receive wanted chunks = receive wanted chunks' := by
  cases chunks with
  | nil =>
    have hempty : request = [] := h.flatten.symm
    subst hempty
    rw [h'.eq_nil]
  | cons first chunks =>
    cases chunks' with
    | nil =>
      have hempty : request = [] := h'.flatten.symm
      subst hempty
      rw [h.eq_nil]
    | cons first' chunks' =>
      exact receive_congr h h' (Or.inl ⟨h.find_eq_none hfit, h'.find_eq_none hfit⟩) wanted

/-! ## The shortest and the longest first piece -/

theorem Pieces.nil : Pieces [] [] where
  flatten := rfl
  nonempty := by simp
  fits := by simp

theorem Pieces.cons {request : Bytes} {chunks : List Bytes} (h : Pieces request chunks)
    (first : Bytes) (hne : first ≠ []) (hfits : first.length ≤ recvBufferSize - 1) :
    Pieces (first ++ request) (first :: chunks) where
  flatten := by rw [List.flatten_cons, h.flatten]
  nonempty := by
    intro chunk hchunk
    rcases List.mem_cons.mp hchunk with rfl | hchunk
    · exact hne
    · exact h.nonempty chunk hchunk
  fits := by
    intro chunk hchunk
    rcases List.mem_cons.mp hchunk with rfl | hchunk
    · exact hfits
    · exact h.fits chunk hchunk

def bytewise (request : Bytes) : List Bytes := request.map fun b => [b]

theorem pieces_bytewise (request : Bytes) : Pieces request (bytewise request) := by
  induction request with
  | nil => exact Pieces.nil
  | cons b request ih => exact ih.cons [b] (List.cons_ne_nil b []) (Nat.succ_le_succ (Nat.zero_le 1022))

/-- As much as fits into the first piece, the rest byte by byte. -/
def fullFirst (request : Bytes) : List Bytes :=
  request.take (recvBufferSize - 1) :: bytewise (request.drop (recvBufferSize - 1))

theorem pieces_fullFirst {request : Bytes} (hne : request ≠ []) :
    Pieces request (fullFirst request) := by
  have htake : request.take (recvBufferSize - 1) ≠ [] := by
    simp [recvBufferSize, hne]
  have hpieces := (pieces_bytewise (request.drop (recvBufferSize - 1))).cons _ htake
    (List.length_take_le _ _)
  rw [List.take_append_drop] at hpieces
  exact hpieces

theorem receive_bytewise {request : Bytes} (hne : request ≠ []) (wanted : RequestLine → Bool) :
    receive wanted (bytewise request) = .ok (.refused missingHeaders) := by
  cases request with
  | nil => exact absurd rfl hne
  | cons b request =>
    apply receive_missing
    cases hfind : find (lineBreak ++ lineBreak) [b] with
    | none => rfl
    | some headerEnd =>
      have hle : headerEnd + 4 ≤ 1 := find_le headerMark_ne_nil hfind
      omega

theorem receive_fullFirst {request : Bytes} (hfit : HeadersFit request)
    (wanted : RequestLine → Bool) :
    receive wanted (fullFirst request) ≠ .ok (.refused missingHeaders) := by
  obtain ⟨headerEnd, hfind⟩ := hfit
  obtain ⟨line, hline, _⟩ := readRequestLine_found hfind
  exact receive_found hline wanted _

theorem HeadersFit.ne_nil {request : Bytes} (h : HeadersFit request) : request ≠ [] := by
  rintro rfl
  obtain ⟨headerEnd, hfind⟩ := h
  have hle : headerEnd + 4 ≤ 0 := find_le headerMark_ne_nil hfind
  omega

/-! ## Independence of the pieces -/

theorem commandIndependent_iff (request : Bytes) :
    CommandIndependent request ↔ ¬HeadersFit request := by
  constructor
  · intro hsame hfit
    have hwhole := hsame _ _ (pieces_fullFirst hfit.ne_nil) (pieces_bytewise request) {} {}
    rw [handleCommandRequest_receive, handleCommandRequest_receive,
      receive_bytewise hfit.ne_nil] at hwhole
    obtain ⟨received, hreceived, hact⟩ := bind_eq_ok.mp hwhole
    have hfound : received ≠ .refused missingHeaders := by
      rintro rfl
      exact receive_fullFirst hfit _ (raise_eq_ok.mp hreceived)
    exact actOn_found hact hfound rfl
  · intro hfit chunks chunks' h h' env server
    exact handleCommandRequest_congr (receive_eq_of_not_fit hfit h h' _) env server

theorem authorizeIndependent_iff (request : Bytes) :
    AuthorizeIndependent request ↔ ¬HeadersFit request := by
  constructor
  · intro hsame hfit
    have hwhole := hsame _ _ (pieces_fullFirst hfit.ne_nil) (pieces_bytewise request) {} {}
    unfold handleAuthorizeRequest at hwhole
    rw [authorize_receive, authorize_receive, receive_bytewise hfit.ne_nil] at hwhole
    obtain ⟨authorization, hauthorization, hwhole⟩ := bind_eq_ok.mp hwhole
    cases hreceived : receive isAuthorization (fullFirst request) with
    | error e =>
      rw [hreceived] at hauthorization
      cases hauthorization
    | ok received =>
      have hfound : received ≠ .refused missingHeaders := by
        rintro rfl
        exact receive_fullFirst hfit _ hreceived
      rw [hreceived] at hauthorization
      have hchecked : checkPassword {} received ≠ .refused missingHeaders :=
        checkPassword_found hfound
      rw [Except.ok.inj hauthorization] at hchecked
      cases authorization with
      | silent => cases hwhole
      | refused reply =>
        have hreply := (Prod.mk.inj (Except.ok.inj hwhole)).1
        exact hchecked (congrArg _ (Option.some.inj hreply))
      | issued body storedPassword =>
        have hreply := (Prod.mk.inj (Except.ok.inj hwhole)).1
        exact ok_ne_missingHeaders _ (Option.some.inj hreply)
  · intro hfit chunks chunks' h h' env server
    exact handleAuthorizeRequest_congr (receive_eq_of_not_fit hfit h h' _) env server

/-- A request is handled alike in all pieces exactly when no first piece can hold the
end of its headers.  Two ways to cut any request make no difference where both
first pieces hold the end of the headers and the text searched for them. -/
theorem segmentation_iff (request : Bytes) :
    (CommandIndependent request ↔ ¬HeadersFit request) ∧
      (AuthorizeIndependent request ↔ ¬HeadersFit request) ∧
      ∀ first first' chunks chunks', Pieces request (first :: chunks) →
        Pieces request (first' :: chunks') → MissAlike first first' ∨ ReadAlike first first' →
        ∀ env server,
          handleCommandRequest env (first :: chunks) server =
              handleCommandRequest env (first' :: chunks') server ∧
            handleAuthorizeRequest env (first :: chunks) server =
              handleAuthorizeRequest env (first' :: chunks') server := by
  refine ⟨commandIndependent_iff request, authorizeIndependent_iff request, ?_⟩
  intro first first' chunks chunks' h h' halike env server
  exact ⟨handleCommandRequest_congr (receive_congr h h' halike _) env server,
    handleAuthorizeRequest_congr (receive_congr h h' halike _) env server⟩

def rulesRequest : Bytes :=
  ascii "POST /command HTTP/1.1\r\nContent-Length: 8\r\n\r\nGETRULES"

/-- Cut behind the request line, the request is refused, else the rules are sent. -/
theorem cut_request_refused : ¬CommandIndependent rulesRequest := by
  intro hsame
  have hcut : Pieces rulesRequest [rulesRequest.take 24, rulesRequest.drop 24] :=
    (Pieces.nil.cons (rulesRequest.drop 24) (by decide) (by decide)).cons
      (rulesRequest.take 24) (by decide) (by decide)
  have hwhole : Pieces rulesRequest [rulesRequest] :=
    Pieces.nil.cons rulesRequest (by decide) (by decide)
  have heq := hsame _ _ hwhole hcut {} {}
  have hrules : handleCommandRequest {} [rulesRequest] {} =
      .ok { server := {}, reply := some (ok (ascii "[]")) } := rfl
  have hrefused : handleCommandRequest {} [rulesRequest.take 24, rulesRequest.drop 24] {} =
      .ok { server := {}, reply := some missingHeaders } := rfl
  rw [hrules, hrefused] at heq
  have hreply := congrArg Outcome.reply (Except.ok.inj heq)
  exact ok_ne_missingHeaders _ (Option.some.inj hreply)

end InverterMonitor.Http
