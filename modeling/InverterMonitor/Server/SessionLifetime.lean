import InverterMonitor.Server.Gate
import InverterMonitor.Server.Reception

/-!
# The lifetime of sessions

Runs of both HTTP servers at times that do not decrease.  A session is used when it
is issued and when a request with its id is accepted.

* `sessions_expire_iff`: over a whole run, no id is accepted past its lifetime
  exactly when every request with an id past its lifetime finds the clean-up due,
  because the session check itself compares no times.
-/

namespace InverterMonitor.Http
open Text Cxx Json Runs

/-! ## The clean-up -/

/-- A minute has passed since the last clean-up; the first call only starts the clock. -/
def Sessions.CleanupDue (now : Time) (sessions : Sessions) : Prop :=
  minutes 1 ≤ now - sessions.lastCleanup.getD now

instance (now : Time) (sessions : Sessions) : Decidable (sessions.CleanupDue now) :=
  inferInstanceAs (Decidable (minutes 1 ≤ _))

theorem Sessions.removeExpiredSessions_iff {now : Time} {sessions : Sessions} {id : Bytes}
    {time : Time} :
    (removeExpiredSessions now sessions).validSessions[id]? = some time ↔
      sessions.validSessions[id]? = some time ∧
        (sessions.CleanupDue now → now - time ≤ sessionLifetime) := by
  unfold removeExpiredSessions CleanupDue
  simp only
  split
  · next hrecent =>
    constructor
    · intro h
      exact ⟨h, fun hdue => absurd hrecent (not_lt.mpr hdue)⟩
    · intro h
      exact h.1
  · next hdue =>
    rw [Std.ExtTreeMap.getElem?_filter', Option.filter_eq_some_iff]
    have hkept : (!expired now time) = true ↔ now - time ≤ sessionLifetime := by
      simp [expired]
    rw [hkept]
    constructor
    · rintro ⟨h, hyoung⟩
      exact ⟨h, fun _ => hyoung⟩
    · rintro ⟨h, hyoung⟩
      exact ⟨h, hyoung (not_lt.mp hdue)⟩

theorem Sessions.mem_removeExpiredSessions {now : Time} {sessions : Sessions} {id : Bytes} :
    id ∈ (removeExpiredSessions now sessions).validSessions ↔
      ∃ time, sessions.validSessions[id]? = some time ∧
        (sessions.CleanupDue now → now - time ≤ sessionLifetime) := by
  rw [Std.ExtTreeMap.mem_iff_isSome_getElem?, Option.isSome_iff_exists]
  exact exists_congr fun time => removeExpiredSessions_iff

/-- A clean-up that finds every session within its lifetime only notes the time. -/
theorem Sessions.removeExpiredSessions_young (now : Time) {sessions : Sessions}
    (hdue : sessions.CleanupDue now)
    (hyoung : ∀ (id : Bytes) (time : Time), sessions.validSessions[id]? = some time →
      now - time ≤ sessionLifetime) :
    removeExpiredSessions now sessions = { sessions with lastCleanup := some now } := by
  have hall : sessions.validSessions.filter (fun _ time => !expired now time) =
      sessions.validSessions := by
    apply Std.ExtTreeMap.ext_getElem?
    intro id
    rw [Std.ExtTreeMap.getElem?_filter']
    cases hid : sessions.validSessions[id]? with
    | none => rfl
    | some time => simp [expired, hyoung id time hid]
  unfold removeExpiredSessions
  simp only [hall, if_neg (not_lt.mpr hdue)]

/-! ## Uses of a session -/

/-- The password was right, so that a session is issued. -/
def issues (env : Environment) (chunks : List Bytes) : Bool :=
  match authorize env chunks with
  | .ok (.issued _ _) => true
  | _ => false

/-- The request presents the id and is not answered that it is invalid. -/
def Accepts (chunks : List Bytes) (outcome : Outcome) (id : Bytes) : Prop :=
  presentedSession chunks = some id ∧ outcome.reply ≠ some invalidSession

instance (chunks : List Bytes) (outcome : Outcome) (id : Bytes) :
    Decidable (Accepts chunks outcome id) :=
  inferInstanceAs (Decidable (_ ∧ _))

/-- The time at which an event issues or accepts the id. -/
def usedAt (id : Bytes) : GateEvent → Option Time
  | .authorized env chunks _ _ =>
    if issues env chunks ∧ generateSessionId env.values = id then some env.sessionTime else none
  | .commanded env chunks _ outcome =>
    if Accepts chunks outcome id then some env.sessionTime else none

/-- Acceptance, told from the sessions before the request. -/
theorem Checked.accepts_iff {env : Environment} {server : Server} {outcome : Outcome}
    {chunks : List Bytes} (h : Checked env server outcome (presentedSession chunks)) (id : Bytes) :
    Accepts chunks outcome id ↔
      presentedSession chunks = some id ∧ id ∈ (env.cleaned server).validSessions := by
  unfold Accepts
  refine and_congr_right fun hpresented => ?_
  rw [hpresented] at h
  cases h with
  | rejected hid _ hreply => exact iff_of_false (fun hne => hne hreply) hid
  | accepted hid _ hreply => exact iff_of_true hreply hid

/-! ## Runs in time -/

/-- The steps of the two servers, with the latest clock reading in the state. -/
inductive TimedStep : Server × Time → Server × Time → List GateEvent → Prop
  | authorize {server after : Server} {now : Time} {reply : Option Reply} (env : Environment)
      (chunks : List Bytes) (hnow : now ≤ env.sessionTime)
      (h : handleAuthorizeRequest env chunks server = .ok (reply, after)) :
      TimedStep (server, now) (after, env.sessionTime) [.authorized env chunks server after]
  | command {server : Server} {now : Time} {outcome : Outcome} (env : Environment)
      (chunks : List Bytes) (hcleanup : now ≤ env.cleanupTime)
      (hsession : env.cleanupTime ≤ env.sessionTime)
      (h : handleCommandRequest env chunks server = .ok outcome) :
      TimedStep (server, now) (outcome.server, env.sessionTime)
        [.commanded env chunks server outcome]
  | cleanup (server : Server) {now : Time} (time : Time) (hnow : now ≤ time) :
      TimedStep (server, now)
        ({ server with sessions := server.sessions.removeExpiredSessions time }, time) []
  | other (server : Server) (now : Time) (engine : Rules.Engine) :
      TimedStep (server, now) ({ server with engine := engine }, now) []

/-- `validSessions` holds for every id the time of its last use. -/
def TimesUses (sessions : Sessions) (history : List GateEvent) : Prop :=
  ∀ (id : Bytes) (time : Time), sessions.validSessions[id]? = some time →
    last (usedAt id) history = some time

theorem TimesUses.removeExpiredSessions {sessions : Sessions} {history : List GateEvent}
    (h : TimesUses sessions history) (now : Time) :
    TimesUses (sessions.removeExpiredSessions now) history := by
  intro id time htime
  exact h id time (Sessions.removeExpiredSessions_some htime)

/-- An event that uses the session it touches and no other. -/
theorem TimesUses.touch {sessions : Sessions} {history : List GateEvent} {event : GateEvent}
    (h : TimesUses sessions history) {id : Bytes} {now : Time} (hid : IsSessionId id)
    (hevent : usedAt id event = some now)
    (hothers : ∀ other, other ≠ id → usedAt other event = none) :
    TimesUses (sessions.touch id now hid) (history ++ [event]) := by
  intro other time htime
  rw [last_concat]
  rw [Sessions.touch_validSessions, Std.ExtTreeMap.getElem?_insert] at htime
  split at htime
  · next heq =>
    rw [← Std.LawfulEqCmp.eq_of_compare heq, hevent]
    exact htime
  · next hne =>
    have hother : other ≠ id := by
      rintro rfl
      exact hne Std.ReflCmp.compare_self
    rw [hothers other hother, Option.none_or]
    exact h other time htime

theorem TimesUses.unused {sessions : Sessions} {history : List GateEvent} {event : GateEvent}
    (h : TimesUses sessions history) (hevent : ∀ id, usedAt id event = none) :
    TimesUses sessions (history ++ [event]) := by
  intro id time htime
  rw [last_concat, hevent id, Option.none_or]
  exact h id time htime

theorem handleAuthorizeRequest_uses {env : Environment} {chunks : List Bytes}
    {server after : Server} {reply : Option Reply}
    (h : handleAuthorizeRequest env chunks server = .ok (reply, after)) :
    issues env chunks = false ∧ after = server ∨
      issues env chunks = true ∧ after = { server with
        sessions := server.sessions.touch (generateSessionId env.values) env.sessionTime
          (generateSessionId_isSessionId env.values) } := by
  obtain ⟨authorization, hauthorize, h⟩ := bind_eq_ok.mp h
  unfold issues
  rw [hauthorize]
  cases authorization with
  | silent =>
    cases h
    exact Or.inl ⟨rfl, rfl⟩
  | refused reply =>
    cases h
    exact Or.inl ⟨rfl, rfl⟩
  | issued body storedPassword =>
    cases h
    exact Or.inr ⟨rfl, rfl⟩

theorem timesUses_authorized {env : Environment} {chunks : List Bytes} {server after : Server}
    {reply : Option Reply} {history : List GateEvent}
    (h : handleAuthorizeRequest env chunks server = .ok (reply, after))
    (huses : TimesUses server.sessions history) :
    TimesUses after.sessions (history ++ [.authorized env chunks server after]) := by
  rcases handleAuthorizeRequest_uses h with ⟨hissues, rfl⟩ | ⟨hissues, rfl⟩
  · apply huses.unused
    intro id
    simp [usedAt, hissues]
  · apply huses.touch (generateSessionId_isSessionId env.values)
    · simp [usedAt, hissues]
    · intro other hother
      simp [usedAt, hother.symm]

theorem timesUses_commanded {env : Environment} {chunks : List Bytes} {server : Server}
    {outcome : Outcome} {history : List GateEvent}
    (h : handleCommandRequest env chunks server = .ok outcome)
    (huses : TimesUses server.sessions history) :
    TimesUses outcome.server.sessions (history ++ [.commanded env chunks server outcome]) := by
  have hchecked := handleCommandRequest_sessions h
  generalize hpresented : presentedSession chunks = presented at hchecked
  cases hchecked with
  | unchecked hsessions =>
    rw [hsessions]
    apply huses.unused
    intro id
    simp [usedAt, Accepts, hpresented]
  | rejected hid hsessions hreply =>
    rw [hsessions]
    apply (huses.removeExpiredSessions env.cleanupTime).unused
    intro id
    simp [usedAt, Accepts, hreply]
  | accepted hid hsessions hreply =>
    rw [hsessions]
    apply (huses.removeExpiredSessions env.cleanupTime).touch
    · simp [usedAt, Accepts, hpresented, hreply]
    · intro other hother
      simp [usedAt, Accepts, hpresented, hother.symm]

/-- The step lemma: the times in `validSessions` stay those of the last uses. -/
theorem TimedStep.timesUses {server after : Server} {now time : Time}
    {history events : List GateEvent} (hstep : TimedStep (server, now) (after, time) events)
    (huses : TimesUses server.sessions history) : TimesUses after.sessions (history ++ events) := by
  cases hstep with
  | authorize env chunks _ h => exact timesUses_authorized h huses
  | command env chunks _ _ h => exact timesUses_commanded h huses
  | cleanup =>
    rw [List.append_nil]
    exact huses.removeExpiredSessions time
  | other =>
    rw [List.append_nil]
    exact huses

/-! ## The lifetime -/

/-- An id is accepted only if at most its lifetime has passed since it was issued
or last accepted. -/
def AcceptsInTime (before : List GateEvent) : GateEvent → Prop
  | .authorized _ _ _ _ => True
  | .commanded env chunks _ outcome =>
    ∀ id, Accepts chunks outcome id →
      ∃ time, last (usedAt id) before = some time ∧
        env.sessionTime - time ≤ Sessions.sessionLifetime

/-- A request with an id past its lifetime finds the clean-up due, and the lifetime
has ended before the clean-up reads the clock. -/
def CleansUpInTime (_ : List GateEvent) : GateEvent → Prop
  | .authorized _ _ _ _ => True
  | .commanded env chunks server _ =>
    ∀ (id : Bytes) (time : Time), presentedSession chunks = some id →
      server.sessions.validSessions[id]? = some time →
      Sessions.sessionLifetime < env.sessionTime - time →
      server.sessions.CleanupDue env.cleanupTime ∧
        Sessions.sessionLifetime < env.cleanupTime - time

theorem acceptsInTime_iff {env : Environment} {chunks : List Bytes} {server : Server}
    {outcome : Outcome} {before : List GateEvent}
    (h : handleCommandRequest env chunks server = .ok outcome)
    (huses : TimesUses server.sessions before) :
    AcceptsInTime before (.commanded env chunks server outcome) ↔
      CleansUpInTime before (.commanded env chunks server outcome) := by
  have haccepts := (handleCommandRequest_sessions h).accepts_iff
  simp only [Sessions.mem_removeExpiredSessions] at haccepts
  constructor
  · intro hintime id time hpresented htime hold
    by_contra hmissed
    have hkept : server.sessions.CleanupDue env.cleanupTime →
        env.cleanupTime - time ≤ Sessions.sessionLifetime := by
      intro hdue
      by_contra hlate
      exact hmissed ⟨hdue, not_le.mp hlate⟩
    obtain ⟨used, hused, hyoung⟩ := hintime id ((haccepts id).mpr ⟨hpresented, time, htime, hkept⟩)
    rw [huses id time htime] at hused
    cases hused
    exact absurd hyoung (not_le.mpr hold)
  · intro hcleans id haccepted
    obtain ⟨hpresented, time, htime, hkept⟩ := (haccepts id).mp haccepted
    refine ⟨time, huses id time htime, ?_⟩
    by_contra hold
    obtain ⟨hdue, hlate⟩ := hcleans id time hpresented htime (not_le.mp hold)
    exact absurd (hkept hdue) (not_le.mpr hlate)

theorem TimedStep.acceptsInTime_iff {server after : Server} {now time : Time}
    {history events : List GateEvent} (hstep : TimedStep (server, now) (after, time) events)
    (huses : TimesUses server.sessions history)
    (h : Lawful AcceptsInTime history ↔ Lawful CleansUpInTime history) :
    Lawful AcceptsInTime (history ++ events) ↔ Lawful CleansUpInTime (history ++ events) := by
  cases hstep with
  | authorize env chunks _ _ =>
    rw [Lawful.concat_iff, Lawful.concat_iff, h]
    exact Iff.rfl
  | command env chunks _ _ hcommand =>
    rw [Lawful.concat_iff, Lawful.concat_iff, h, Http.acceptsInTime_iff hcommand huses]
  | cleanup =>
    rw [List.append_nil]
    exact h
  | other =>
    rw [List.append_nil]
    exact h

/-- In every run, ids are accepted within their lifetime exactly when every request
with an older id finds the clean-up due. -/
theorem sessions_expire_iff {engine : Rules.Engine} {firmware : Option Bytes} {server : Server}
    {start now : Time} {history : List GateEvent}
    (h : Run TimedStep ({ engine := engine, firmware := firmware }, start) (server, now) history) :
    Lawful AcceptsInTime history ↔ Lawful CleansUpInTime history := by
  have hrun := h.invariant
    (P := fun state history => TimesUses state.1.sessions history ∧
      (Lawful AcceptsInTime history ↔ Lawful CleansUpInTime history))
    ⟨fun id time htime => by simp at htime, iff_of_true Lawful.nil Lawful.nil⟩
    fun _ _ _ _ hp hstep => ⟨hstep.timesUses hp.1, hstep.acceptsInTime_iff hp.1 hp.2⟩
  exact hrun.2

def loginEnvironment : Environment := { authFile := some (ascii "pw\n") }

/-- Both clock readings of a request at one time. -/
def requestAt (time : Time) : Environment := { cleanupTime := time, sessionTime := time }

def tenths (n : Nat) : Time := n * 6000000000

/-- A command soon after the login is accepted in time. -/
theorem sessions_expire_soon :
    ∃ server now history, Run TimedStep ({}, 0) (server, now) history ∧
      (Lawful AcceptsInTime history ↔ Lawful CleansUpInTime history) ∧
      last (usedAt firstId) history = some (minutes 2) := by
  have hstart : Run TimedStep ({}, 0) ({}, 0) [] := .start
  have hlogin := hstart.next (.authorize loginEnvironment [loginRequest] (Nat.le_refl 0) rfl)
  have hcommand := hlogin.next
    (.command (requestAt (minutes 2)) [readRequest] (Nat.zero_le _) (Nat.le_refl _) rfl)
  exact ⟨_, _, _, hcommand, sessions_expire_iff hcommand, rfl⟩

/-- An id issued at the start is accepted after 5.3 minutes, as the clean-up has run
after 4.5 minutes. -/
theorem old_session_accepted :
    ∃ server now history, Run TimedStep ({}, 0) (server, now) history ∧
      ¬Lawful AcceptsInTime history := by
  have hstart : Run TimedStep ({}, 0) ({}, 0) [] := .start
  have hfirst := hstart.next (.cleanup _ 0 (Nat.le_refl 0))
  have hlogin := hfirst.next (.authorize loginEnvironment [loginRequest] (Nat.le_refl 0) rfl)
  have hcleanup := hlogin.next (.cleanup _ (tenths 45) (Nat.zero_le _))
  rw [Sessions.removeExpiredSessions_young (tenths 45) (by decide) fun id time htime =>
    (Nat.sub_le _ _).trans (by decide)] at hcleanup
  have hcommand := hcleanup.next
    (.command (requestAt (tenths 53)) [readRequest] (by decide) (Nat.le_refl _) rfl)
  refine ⟨_, _, _, hcommand, fun hlawful => ?_⟩
  obtain ⟨time, htime, hyoung⟩ := hlawful.at_end firstId (by decide)
  have hused : some time = some 0 := htime.symm.trans rfl
  rw [Option.some.inj hused] at hyoung
  exact absurd hyoung (by decide)

end InverterMonitor.Http
