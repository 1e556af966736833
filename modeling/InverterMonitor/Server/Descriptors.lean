import InverterMonitor.Runs.History
import Mathlib.Data.List.Nodup

/-!
# Descriptor numbers of the monitor connections

`serverLoop`, the broadcasts and the other server threads share the descriptor
numbers of the process.  The code keeps numbers; the model keeps with each number
the connection that it was accepted for.  `serverLoop` collects stale clients
under the lock, releases it, and later closes each of them whatever has happened
in between.  Proved here:

* `Owned.step`: where no broadcast fails on a client that waits for its removal,
  every number in use belongs to the connection it was accepted for;
* `closes_lawful`: then each connection is closed once, under its own number, and
  a broadcast that does fail there leads to a second close;
* `other_connection_closed`: a run in which the second close hits a connection of
  another thread.
-/

namespace InverterMonitor.Monitor
open Runs

/-! ## State -/

/-- A descriptor number, and the connection that it was accepted for. -/
structure Client where
  socket : Nat
  connection : Nat
  deriving DecidableEq, Repr

/-- The descriptor table of the process and the lists that hold numbers. -/
structure Descriptors where
  owner : Nat → Option Nat := fun _ => none
  /-- The number of connections accepted so far. -/
  accepted : Nat := 0
  clients : List Client := []
  /-- Accepted by `serverLoop`, and not yet in `clients`. -/
  entering : Option Client := none
  staleClients : List Client := []
  /-- The connections of the HTTP threads. -/
  others : List Client := []

inductive DescriptorEvent
  | accepted (client : Client)
  /-- A close on behalf of a client, and the connection that had the number then. -/
  | closed (client : Client) (found : Option Nat)
  deriving DecidableEq, Repr

namespace Descriptors

/-- The records that hold a number in use. -/
def live (s : Descriptors) : List Client := s.clients ++ s.entering.toList ++ s.others

/-- The operating system gives the next connection a number. -/
def openSocket (s : Descriptors) (socket : Nat) : Descriptors :=
  { s with
    owner := Function.update s.owner socket (some s.accepted), accepted := s.accepted + 1 }

/-- `closeClient` -/
def closeClient (s : Descriptors) (client : Client) : Descriptors :=
  { s with owner := Function.update s.owner client.socket none }

/-- `removeClient`: every entry with the number goes, and the number is closed. -/
def removeClient (s : Descriptors) (client : Client) : Descriptors :=
  { s with clients := s.clients.filter (·.socket ≠ client.socket) }.closeClient client

/-- A failed `send` in `broadcastToClients`. -/
def dropClient (s : Descriptors) (client : Client) : Descriptors :=
  { s.closeClient client with clients := s.clients.erase client }

/-- The loop of `broadcastToClients` over the clients on which `send` fails. -/
def dropClients : List Client → Descriptors → Descriptors × List DescriptorEvent
  | [], s => (s, [])
  | client :: failed, s =>
    let (t, events) := dropClients failed (s.dropClient client)
    (t, .closed client (s.owner client.socket) :: events)

def broadcastToClients (s : Descriptors) (fails : Client → Bool) :
    Descriptors × List DescriptorEvent :=
  dropClients (s.clients.filter fails) s

end Descriptors

/-! ## Steps -/

/-- The steps under the lock and the accepts, in any interleaving.  `allowed` says
which broadcasts there are, by the clients on which `send` fails. -/
inductive DescriptorStep (allowed : Descriptors → (Client → Bool) → Prop) :
    Descriptors → Descriptors → List DescriptorEvent → Prop
  | accept (s : Descriptors) (socket : Nat) (hfree : s.owner socket = none)
      (hentering : s.entering = none) (hstale : s.staleClients = []) :
      DescriptorStep allowed s { s.openSocket socket with entering := some ⟨socket, s.accepted⟩ }
        [.accepted ⟨socket, s.accepted⟩]
  | enter (s : Descriptors) {client : Client} (hentering : s.entering = some client) :
      DescriptorStep allowed s { s with clients := s.clients ++ [client], entering := none } []
  | scan (s : Descriptors) (stale : Client → Bool) (hentering : s.entering = none)
      (hstale : s.staleClients = []) :
      DescriptorStep allowed s { s with staleClients := s.clients.filter stale } []
  | remove (s : Descriptors) {client : Client} {rest : List Client}
      (hstale : s.staleClients = client :: rest) :
      DescriptorStep allowed s { s.removeClient client with staleClients := rest }
        [.closed client (s.owner client.socket)]
  | broadcast (s : Descriptors) (fails : Client → Bool) (hallowed : allowed s fails) :
      DescriptorStep allowed s (s.broadcastToClients fails).1 (s.broadcastToClients fails).2
  | acceptOther (s : Descriptors) (socket : Nat) (hfree : s.owner socket = none) :
      DescriptorStep allowed s
        { s.openSocket socket with others := ⟨socket, s.accepted⟩ :: s.others }
        [.accepted ⟨socket, s.accepted⟩]
  | closeOther (s : Descriptors) {client : Client} (hclient : client ∈ s.others) :
      DescriptorStep allowed s { s.closeClient client with others := s.others.erase client }
        [.closed client (s.owner client.socket)]

/-- Any broadcast may happen. -/
def AnyBroadcast : Descriptors → (Client → Bool) → Prop := fun _ _ => True

/-- The broadcast does not fail on a client that waits for its removal. -/
def SparesStale (s : Descriptors) (fails : Client → Bool) : Prop :=
  ∀ client ∈ s.staleClients, fails client = false

instance (s : Descriptors) (fails : Client → Bool) : Decidable (SparesStale s fails) :=
  inferInstanceAs (Decidable (∀ client ∈ s.staleClients, fails client = false))

/-- A close is the first one on behalf of its connection, and does not hit another one. -/
def CloseLaw (before : List DescriptorEvent) : DescriptorEvent → Prop
  | .accepted _ => True
  | .closed client found =>
    (∀ other, found = some other → other = client.connection) ∧
      ∀ earlier, .closed client earlier ∉ before

/-! ## Numbers in use -/

structure Owned (s : Descriptors) (history : List DescriptorEvent) : Prop where
  owner : ∀ client ∈ s.live, s.owner client.socket = some client.connection
  nodup : s.live.Nodup
  fresh : ∀ client ∈ s.live, client.connection < s.accepted
  stale : ∀ client ∈ s.staleClients, client ∈ s.clients
  staleNodup : s.staleClients.Nodup
  closed : ∀ client found, .closed client found ∈ history →
    client ∉ s.live ∧ client.connection < s.accepted
  lawful : Lawful CloseLaw history

namespace Owned

variable {s t : Descriptors} {history : List DescriptorEvent}

theorem start : Owned {} [] where
  owner := by simp [Descriptors.live]
  nodup := by simp [Descriptors.live]
  fresh := by simp [Descriptors.live]
  stale := by simp
  staleNodup := by simp
  closed := by simp
  lawful := Lawful.nil

/-- Different connections have different numbers. -/
theorem socket_ne (h : Owned s history) {client other : Client} (hclient : client ∈ s.live)
    (hother : other ∈ s.live) (hne : other ≠ client) : other.socket ≠ client.socket := by
  intro heq
  have howner := h.owner other hother
  rw [heq, h.owner client hclient] at howner
  apply hne
  cases other
  cases client
  simp_all

/-- A close on behalf of a live client, whose record goes. -/
theorem close (h : Owned s history) {client : Client} (hclient : client ∈ s.live)
    (howner : t.owner = Function.update s.owner client.socket none)
    (haccepted : t.accepted = s.accepted) (hlive : t.live.Sublist s.live)
    (hgone : client ∉ t.live) (hstale : ∀ other ∈ t.staleClients, other ∈ t.clients)
    (hnodup : t.staleClients.Nodup) :
    Owned t (history ++ [.closed client (s.owner client.socket)]) where
  owner := by
    intro other hother
    have hne : other ≠ client := fun heq => hgone (heq ▸ hother)
    have hbefore := hlive.subset hother
    rw [howner, Function.update_of_ne (h.socket_ne hclient hbefore hne)]
    exact h.owner other hbefore
  nodup := h.nodup.sublist hlive
  fresh := by
    intro other hother
    rw [haccepted]
    exact h.fresh other (hlive.subset hother)
  stale := hstale
  staleNodup := hnodup
  closed := by
    intro other found hmem
    rw [haccepted]
    rcases List.mem_append.mp hmem with hbefore | hnew
    · obtain ⟨hnot, hlt⟩ := h.closed other found hbefore
      exact ⟨fun hother => hnot (hlive.subset hother), hlt⟩
    · simp only [List.mem_singleton, DescriptorEvent.closed.injEq] at hnew
      obtain ⟨rfl, _⟩ := hnew
      exact ⟨hgone, h.fresh other hclient⟩
  lawful := by
    apply h.lawful.concat
    refine ⟨fun other hother => ?_, fun earlier hearlier => ?_⟩
    · rw [h.owner client hclient] at hother
      exact (Option.some.inj hother).symm
    · exact (h.closed client earlier hearlier).1 hclient

/-- A new connection, whose number was free. -/
theorem accept (h : Owned s history) {socket : Nat} (hfree : s.owner socket = none)
    (howner : t.owner = Function.update s.owner socket (some s.accepted))
    (haccepted : t.accepted = s.accepted + 1)
    (hlive : t.live.Perm (⟨socket, s.accepted⟩ :: s.live))
    (hclients : t.clients = s.clients) (hstale : t.staleClients = s.staleClients) :
    Owned t (history ++ [.accepted ⟨socket, s.accepted⟩]) where
  owner := by
    intro client hclient
    rcases List.mem_cons.mp (hlive.mem_iff.mp hclient) with rfl | hbefore
    · rw [howner, Function.update_self]
    · have hne : client.socket ≠ socket := by
        intro heq
        have howner := h.owner client hbefore
        rw [heq, hfree] at howner
        cases howner
      rw [howner, Function.update_of_ne hne]
      exact h.owner client hbefore
  nodup := by
    apply hlive.nodup_iff.mpr
    refine List.nodup_cons.mpr ⟨fun hmem => ?_, h.nodup⟩
    exact Nat.lt_irrefl _ (h.fresh _ hmem)
  fresh := by
    intro client hclient
    rw [haccepted]
    rcases List.mem_cons.mp (hlive.mem_iff.mp hclient) with rfl | hbefore
    · exact Nat.lt_succ_self _
    · exact Nat.lt_succ_of_lt (h.fresh client hbefore)
  stale := by
    rw [hclients, hstale]
    exact h.stale
  staleNodup := hstale ▸ h.staleNodup
  closed := by
    intro client found hmem
    rw [haccepted]
    have hbefore : .closed client found ∈ history := by simpa using hmem
    obtain ⟨hnot, hlt⟩ := h.closed client found hbefore
    refine ⟨fun hclient => ?_, Nat.lt_succ_of_lt hlt⟩
    rcases List.mem_cons.mp (hlive.mem_iff.mp hclient) with rfl | hlived
    · exact Nat.lt_irrefl _ hlt
    · exact hnot hlived
  lawful := h.lawful.concat trivial

theorem clients_live {client : Client} (h : client ∈ s.clients) : client ∈ s.live := by
  simp [Descriptors.live, h]

/-- The records left when a client is dropped. -/
theorem dropClient (h : Owned s history) {client : Client} (hclient : client ∈ s.clients)
    (hspared : client ∉ s.staleClients) :
    Owned (s.dropClient client) (history ++ [.closed client (s.owner client.socket)]) := by
  have hnodup := h.nodup
  simp only [Descriptors.live, List.append_assoc] at hnodup
  obtain ⟨hclients, _, hapart⟩ := List.nodup_append.mp hnodup
  have hsub : (s.dropClient client).live.Sublist s.live := by
    simp only [Descriptors.live, Descriptors.dropClient, Descriptors.closeClient,
      List.append_assoc]
    exact List.Sublist.append List.erase_sublist (List.Sublist.refl _)
  apply h.close (t := s.dropClient client) (clients_live hclient) rfl rfl hsub
  · intro hmem
    simp only [Descriptors.live, Descriptors.dropClient, Descriptors.closeClient,
      List.append_assoc] at hmem
    rcases List.mem_append.mp hmem with hleft | hleft
    · exact absurd rfl (hclients.mem_erase_iff.mp hleft).1
    · exact hapart client hclient client hleft rfl
  · intro other hother
    have hne : other ≠ client := fun heq => hspared (heq ▸ hother)
    exact (List.mem_erase_of_ne hne).mpr (h.stale other hother)
  · exact h.staleNodup

/-- The clients on which a broadcast fails, one after the other. -/
theorem dropClients (h : Owned s history) {failed : List Client} (hnodup : failed.Nodup)
    (hfailed : ∀ client ∈ failed, client ∈ s.clients ∧ client ∉ s.staleClients) :
    Owned (Descriptors.dropClients failed s).1
      (history ++ (Descriptors.dropClients failed s).2) := by
  induction failed generalizing s history with
  | nil =>
    rw [Descriptors.dropClients, List.append_nil]
    exact h
  | cons client failed ih =>
    obtain ⟨hnot, hnodup⟩ := List.nodup_cons.mp hnodup
    obtain ⟨hclient, hspared⟩ := hfailed client (by simp)
    have hrest := ih (h.dropClient hclient hspared) hnodup (by
      intro other hother
      obtain ⟨hmem, hspared⟩ := hfailed other (by simp [hother])
      have hne : other ≠ client := fun heq => hnot (heq ▸ hother)
      exact ⟨(List.mem_erase_of_ne hne).mpr hmem, hspared⟩)
    rwa [List.append_assoc] at hrest

/-- The client that waited longest is removed. -/
theorem removeClient (h : Owned s history) {client : Client} {rest : List Client}
    (hstale : s.staleClients = client :: rest) :
    Owned { s.removeClient client with staleClients := rest }
      (history ++ [.closed client (s.owner client.socket)]) := by
  have hclient : client ∈ s.clients := h.stale client (by simp [hstale])
  have hnodup := h.staleNodup
  rw [hstale] at hnodup
  obtain ⟨hnot, hrest⟩ := List.nodup_cons.mp hnodup
  have hlive := h.nodup
  simp only [Descriptors.live, List.append_assoc] at hlive
  obtain ⟨_, _, hapart⟩ := List.nodup_append.mp hlive
  apply h.close (t := { s.removeClient client with staleClients := rest }) (clients_live hclient)
    rfl rfl
  · simp only [Descriptors.live, Descriptors.removeClient, Descriptors.closeClient,
      List.append_assoc]
    exact List.Sublist.append List.filter_sublist (List.Sublist.refl _)
  · intro hmem
    simp only [Descriptors.live, Descriptors.removeClient, Descriptors.closeClient,
      List.append_assoc] at hmem
    rcases List.mem_append.mp hmem with hleft | hleft
    · simp at hleft
    · exact hapart client hclient client hleft rfl
  · intro other hother
    have hmem : other ∈ s.clients := h.stale other (by rw [hstale]; simp [show other ∈ rest from hother])
    have hne : other ≠ client := fun heq => hnot (heq ▸ hother)
    simp only [Descriptors.removeClient, Descriptors.closeClient, List.mem_filter, decide_eq_true_eq]
    exact ⟨hmem, h.socket_ne (clients_live hclient) (clients_live hmem) hne⟩
  · exact hrest

/-- A connection of another thread is closed by it. -/
theorem closeOther (h : Owned s history) {client : Client} (hclient : client ∈ s.others) :
    Owned { s.closeClient client with others := s.others.erase client }
      (history ++ [.closed client (s.owner client.socket)]) := by
  have hmem : client ∈ s.live := by simp [Descriptors.live, hclient]
  obtain ⟨_, hothers, hapart⟩ := List.nodup_append.mp h.nodup
  apply h.close (t := { s.closeClient client with others := s.others.erase client }) hmem rfl rfl
  · exact List.Sublist.append (List.Sublist.refl _) List.erase_sublist
  · intro hleft
    rcases List.mem_append.mp hleft with hleft | hleft
    · exact hapart client hleft client hclient rfl
    · exact absurd rfl (hothers.mem_erase_iff.mp hleft).1
  · exact h.stale
  · exact h.staleNodup

/-- The step lemma. -/
theorem step (h : Owned s history) {events : List DescriptorEvent}
    (hstep : DescriptorStep SparesStale s t events) : Owned t (history ++ events) := by
  cases hstep with
  | accept socket hfree hentering hstale =>
    apply h.accept (t := { s.openSocket socket with entering := some ⟨socket, s.accepted⟩ }) hfree
      rfl rfl
    · simp only [Descriptors.live, Descriptors.openSocket, hentering, Option.toList_some,
        Option.toList_none, List.append_nil, List.append_assoc, List.singleton_append]
      exact List.perm_middle
    · rfl
    · rfl
  | @enter client hentering =>
    have hlive : ({ s with clients := s.clients ++ [client], entering := none }
        : Descriptors).live = s.live := by
      simp [Descriptors.live, hentering]
    rw [List.append_nil]
    refine ⟨?_, ?_, ?_, ?_, h.staleNodup, ?_, h.lawful⟩
    · rw [hlive]
      exact h.owner
    · rw [hlive]
      exact h.nodup
    · rw [hlive]
      exact h.fresh
    · exact fun other hother => List.mem_append_left _ (h.stale other hother)
    · rw [hlive]
      exact h.closed
  | scan stale hentering hstale =>
    rw [List.append_nil]
    have hclients := (List.nodup_append.mp (List.nodup_append.mp h.nodup).1).1
    exact ⟨h.owner, h.nodup, h.fresh, fun other hother => (List.mem_filter.mp hother).1,
      hclients.filter _, h.closed, h.lawful⟩
  | remove hstale => exact h.removeClient hstale
  | broadcast fails hallowed =>
    have hclients := (List.nodup_append.mp (List.nodup_append.mp h.nodup).1).1
    apply h.dropClients (hclients.filter _)
    intro client hclient
    obtain ⟨hmem, hfails⟩ := List.mem_filter.mp hclient
    refine ⟨hmem, fun hstale => ?_⟩
    rw [hallowed client hstale] at hfails
    cases hfails
  | acceptOther socket hfree =>
    apply h.accept (t := { s.openSocket socket with others := ⟨socket, s.accepted⟩ :: s.others })
      hfree rfl rfl
    · exact List.perm_middle
    · rfl
    · rfl
  | closeOther hclient => exact h.closeOther hclient

end Owned

/-! ## A broadcast that fails on a stale client -/

theorem dropClients_closes {failed : List Client} {client : Client} (h : client ∈ failed)
    (s : Descriptors) : ∃ found, .closed client found ∈ (Descriptors.dropClients failed s).2 := by
  induction failed generalizing s with
  | nil => simp at h
  | cons other failed ih =>
    rcases List.mem_cons.mp h with rfl | h
    · exact ⟨_, List.mem_cons_self⟩
    · obtain ⟨found, hfound⟩ := ih h (s.dropClient other)
      exact ⟨found, List.mem_cons_of_mem _ hfound⟩

theorem dropClients_staleClients (failed : List Client) (s : Descriptors) :
    (Descriptors.dropClients failed s).1.staleClients = s.staleClients := by
  induction failed generalizing s with
  | nil => rfl
  | cons client failed ih => exact ih (s.dropClient client)

/-- The stale clients are removed in their order. -/
theorem removes_stale {before after : List Client} {client : Client} {s : Descriptors}
    (h : s.staleClients = before ++ client :: after) :
    ∃ t events found, Run (DescriptorStep AnyBroadcast) s t (events ++ [.closed client found]) := by
  induction before generalizing s with
  | nil => exact ⟨_, [], _, .next .start (.remove s h)⟩
  | cons first before ih =>
    obtain ⟨t, events, found, hrun⟩ :=
      ih (s := { s.removeClient first with staleClients := before ++ client :: after }) rfl
    have hstale : s.staleClients = first :: (before ++ client :: after) := h
    have hfirst : Run (DescriptorStep AnyBroadcast) s _ ([] ++ [_]) :=
      .next .start (.remove s hstale)
    have hboth := hfirst.trans hrun
    rw [← List.append_assoc] at hboth
    exact ⟨t, _, found, hboth⟩

/-- A broadcast that fails on a stale client leads to a second close of its connection. -/
theorem closed_twice {s : Descriptors} {history : List DescriptorEvent} (h : Owned s history)
    {fails : Client → Bool} (hfails : ¬ SparesStale s fails) :
    ∃ t events, Run (DescriptorStep AnyBroadcast) s t events ∧
      ¬ Lawful CloseLaw (history ++ events) := by
  simp only [SparesStale, not_forall, Bool.not_eq_false] at hfails
  obtain ⟨client, hstale, hfail⟩ := hfails
  have hbroadcast : Run (DescriptorStep AnyBroadcast) s _ ([] ++ (s.broadcastToClients fails).2) :=
    .next .start (.broadcast s fails trivial)
  have hkept := dropClients_staleClients (s.clients.filter fails) s
  obtain ⟨before, after, hsplit⟩ := List.append_of_mem hstale
  obtain ⟨t, events, found, hrun⟩ := removes_stale (hkept.trans hsplit)
  obtain ⟨earlier, hearlier⟩ :=
    dropClients_closes (List.mem_filter.mpr ⟨h.stale client hstale, hfail⟩) s
  refine ⟨t, _, hbroadcast.trans hrun, fun hlawful => ?_⟩
  rw [List.nil_append, ← List.append_assoc, ← List.append_assoc] at hlawful
  apply hlawful.at_end.2 earlier
  exact List.mem_append_left _ (List.mem_append_right _ hearlier)

/-! ## When each connection is closed once -/

theorem closes_lawful {s : Descriptors} {history : List DescriptorEvent}
    (h : Run (DescriptorStep SparesStale) {} s history) :
    Lawful CloseLaw history ∧
      ∀ fails, ¬ SparesStale s fails →
        ∃ t events, Run (DescriptorStep AnyBroadcast) s t events ∧
          ¬ Lawful CloseLaw (history ++ events) := by
  have howned := h.invariant Owned.start fun _ _ _ _ howned hstep => howned.step hstep
  exact ⟨howned.lawful, fun fails hfails => closed_twice howned hfails⟩

/-- Of three clients one fails in a broadcast while the two others are stale; the first of these is
removed, and its number goes to an HTTP connection. -/
def reusedNumber : List DescriptorEvent :=
  [.accepted ⟨5, 0⟩, .accepted ⟨6, 1⟩, .accepted ⟨7, 2⟩, .closed ⟨7, 2⟩ (some 2),
    .closed ⟨5, 0⟩ (some 0), .accepted ⟨5, 3⟩]

theorem closes_lawful_reused :
    ∃ s, Run (DescriptorStep SparesStale) {} s reusedNumber ∧ s.staleClients = [⟨6, 1⟩] ∧
      Lawful CloseLaw reusedNumber ∧
      ∃ t events, Run (DescriptorStep AnyBroadcast) s t events ∧
        ¬ Lawful CloseLaw (reusedNumber ++ events) := by
  have hstart : Run (DescriptorStep SparesStale) {} {} [] := .start
  have hfirst := (hstart.next (.accept {} 5 rfl rfl rfl)).next (.enter _ rfl)
  have hsecond := (hfirst.next (.accept _ 6 rfl rfl rfl)).next (.enter _ rfl)
  have hthird := (hsecond.next (.accept _ 7 rfl rfl rfl)).next (.enter _ rfl)
  have hscanned := hthird.next (.scan _ (fun client => client.socket != 7) rfl rfl)
  have hfailed := hscanned.next (.broadcast _ (fun client => client.socket == 7) (by decide))
  have hremoved := hfailed.next (.remove _ rfl)
  have hreused := hremoved.next (.acceptOther _ 5 rfl)
  obtain ⟨hlawful, hbroken⟩ := closes_lawful hreused
  exact ⟨_, hreused, rfl, hlawful, hbroken (fun _ => true) (by decide)⟩

/-- A client with number 5 disconnects; a broadcast fails on it and closes it while it
waits for its removal; the number goes to an HTTP connection, which is closed instead. -/
theorem other_connection_closed :
    ¬ ∀ (s : Descriptors) (history : List DescriptorEvent),
      Run (DescriptorStep AnyBroadcast) {} s history → Lawful CloseLaw history := by
  intro h
  have hstart : Run (DescriptorStep AnyBroadcast) {} {} [] := .start
  have haccepted := hstart.next (.accept {} 5 rfl rfl rfl)
  have hentered := haccepted.next (.enter _ rfl)
  have hscanned := hentered.next (.scan _ (fun _ => true) rfl rfl)
  have hfailed := hscanned.next (.broadcast _ (fun _ => true) trivial)
  have hreused := hfailed.next (.acceptOther _ 5 rfl)
  have hremoved := hreused.next (.remove _ rfl)
  have hlaw := (h _ _ hremoved).at_end
  exact absurd (hlaw.1 1 rfl) (by decide)

end InverterMonitor.Monitor
