import ParallelGdb.Library.Typestate
import ParallelGdb.Startup.Command

/-!
# Starting the slaves over SSH

`start_slaves_ssh` opens a session, checks the server, authenticates and has the
command executed. The library allows its calls in a certain order only; every reply
to every call is possible.
-/

namespace ParallelGdb.Startup

open Library.CString Library.Typestate

/-- The calls of libssh, with the texts they are given. -/
inductive SshCall
  | new
  | setHost (host : Bytes)
  | setUser (user : Bytes)
  | connect
  | isKnownServer
  | userauthPassword (password : Bytes)
  | channelNew
  | channelOpenSession
  | channelRequestExec (cmd : Bytes)
  | channelSendEof
  | channelClose
  | channelFree
  | disconnect
  | free
  deriving DecidableEq

/-- A client of libssh; the reply tells whether the call succeeded. -/
abbrev SshClient := Client SshCall Bool

/-- `run_cmd`. -/
def runCmd (reply : SshCall → Bool) (cmd : Bytes) : SshClient Bool := do
  let call := call reply
  if !(← call .channelNew) then
    return false
  if !(← call .channelOpenSession) then
    let _ ← call .channelFree
    return false
  if !(← call (.channelRequestExec (cstr cmd))) then
    let _ ← call .channelClose
    let _ ← call .channelFree
    return false
  let _ ← call .channelSendEof
  let _ ← call .channelClose
  let _ ← call .channelFree
  return true

/-- `start_slaves_ssh`. -/
def startSlavesSsh (reply : SshCall → Bool) (v : StartupValues) : SshClient Bool := do
  let call := call reply
  if !(← call .new) then
    return false
  let _ ← call (.setHost (cstr v.sshAddress))
  let _ ← call (.setUser (cstr v.sshUser))
  if !(← call .connect) then
    return false
  if !(← call .isKnownServer) then
    let _ ← call .disconnect
    let _ ← call .free
    return false
  if !(← call (.userauthPassword (cstr v.sshPassword))) then
    let _ ← call .disconnect
    let _ ← call .free
    return false
  if !(← runCmd reply (getCmd v)) then
    let _ ← call .disconnect
    let _ ← call .free
    return false
  let _ ← call .disconnect
  let _ ← call .free
  return true

/-- How far a session is. -/
inductive SshStage
  | missing
  | allocated
  | connected
  | known
  | authenticated
  | channel
  | opened
  | closed
  | disconnected
  | freed
  deriving DecidableEq

/-- A session, and the command the server has accepted. -/
structure SshSession where
  stage : SshStage
  executed : Option Bytes
  deriving DecidableEq

namespace SshSession

def start : SshSession := ⟨.missing, none⟩

def reach (s : SshSession) (stage : SshStage) : SshSession := { s with stage }

/-- What libssh allows: a call that fails leaves the session where it is. -/
def next (s : SshSession) : SshCall × Bool → Option SshSession
  | (.new, ok) =>
      if s.stage = .missing then some (if ok then s.reach .allocated else s) else none
  | (.setHost _, _) => if s.stage = .allocated then some s else none
  | (.setUser _, _) => if s.stage = .allocated then some s else none
  | (.connect, ok) =>
      if s.stage = .allocated then some (if ok then s.reach .connected else s) else none
  | (.isKnownServer, ok) =>
      if s.stage = .connected then some (if ok then s.reach .known else s) else none
  | (.userauthPassword _, ok) =>
      if s.stage = .known then some (if ok then s.reach .authenticated else s) else none
  | (.channelNew, ok) =>
      if s.stage = .authenticated then some (if ok then s.reach .channel else s) else none
  | (.channelOpenSession, ok) =>
      if s.stage = .channel then some (if ok then s.reach .opened else s) else none
  | (.channelRequestExec cmd, ok) =>
      if s.stage = .opened then some (if ok then { s with executed := some cmd } else s) else none
  | (.channelSendEof, _) => if s.stage = .opened then some s else none
  | (.channelClose, _) => if s.stage = .opened then some (s.reach .closed) else none
  | (.channelFree, _) =>
      if s.stage = .channel ∨ s.stage = .closed then some (s.reach .authenticated) else none
  | (.disconnect, _) =>
      if s.stage = .connected ∨ s.stage = .known ∨ s.stage = .authenticated then
        some (s.reach .disconnected)
      else none
  | (.free, _) =>
      if s.stage = .allocated ∨ s.stage = .disconnected then some (s.reach .freed) else none

/-- In these stages the server is known. -/
def serverKnown (s : SshSession) : Bool :=
  s.stage = .known || s.stage = .authenticated || s.stage = .channel || s.stage = .opened ||
    s.stage = .closed

section Protocol

variable {s t : SshSession} {calls : List (SshCall × Bool)}

/-- The server becomes known by the one call that checks it. -/
theorem known_next {c : SshCall × Bool} (h : s.next c = some t) (ht : t.serverKnown = true) :
    s.serverKnown = true ∨ c = (.isKnownServer, true) := by
  obtain ⟨call, ok⟩ := c
  obtain ⟨stage, executed⟩ := s
  cases call <;> cases ok <;> cases stage <;>
    simp_all [next, reach, serverKnown] <;> subst h <;> simp_all

theorem known_of_password {password : Bytes} {ok : Bool}
    (h : s.next (.userauthPassword password, ok) = some t) : s.serverKnown = true := by
  obtain ⟨hstage, -⟩ := Option.ite_none_right_eq_some.mp h
  simp [serverKnown, hstage]

/-- A password is sent after the server was found to be known, and to no other. -/
theorem known_of_allowed (h : calls.foldlM next start = some t) :
    (t.serverKnown = true → (.isKnownServer, true) ∈ calls) ∧
      ∀ password ok, (.userauthPassword password, ok) ∈ calls →
        (.isKnownServer, true) ∈ calls := by
  refine log_invariant (I := fun calls t =>
    (t.serverKnown = true → (.isKnownServer, true) ∈ calls) ∧
      ∀ password ok, (.userauthPassword password, ok) ∈ calls →
        (.isKnownServer, true) ∈ calls) h ⟨nofun, nofun⟩ ?_
  rintro log s c t ⟨hknown, hpassword⟩ hnext
  refine ⟨fun ht => ?_, fun password ok hmem => ?_⟩
  · rcases known_next hnext ht with hs | rfl
    · exact List.mem_append_left _ (hknown hs)
    · exact List.mem_append_right _ (List.mem_singleton.mpr rfl)
  · rcases List.mem_append.mp hmem with hmem | hmem
    · exact List.mem_append_left _ (hpassword password ok hmem)
    · obtain rfl := List.mem_singleton.mp hmem
      exact List.mem_append_left _ (hknown (known_of_password hnext))

end Protocol

end SshSession

section Client

variable (reply : SshCall → Bool)

/-- Where the client is behind `run_cmd`: the session is as before, and the server has
accepted the command if that succeeded. -/
def RanCmd (cmd : Bytes) (ok : Bool) (s : SshSession) : Prop :=
  s = ⟨.authenticated, if ok then some (cstr cmd) else none⟩

theorem runCmd_follows (cmd : Bytes) :
    Follows SshSession.next (runCmd reply cmd) ⟨.authenticated, none⟩ (RanCmd cmd) := by
  unfold runCmd
  cases hchannel : reply .channelNew with
  | false =>
      refine follows_call_bind (t := ⟨.authenticated, none⟩) (by rw [hchannel]; rfl) ?_
      rw [hchannel]
      exact follows_pure rfl
  | true =>
      refine follows_call_bind (t := ⟨.channel, none⟩) (by rw [hchannel]; rfl) ?_
      rw [hchannel]
      cases hopen : reply .channelOpenSession with
      | false =>
          refine follows_call_bind (t := ⟨.channel, none⟩) (by rw [hopen]; rfl) ?_
          rw [hopen]
          refine follows_call_bind (t := ⟨.authenticated, none⟩) rfl ?_
          exact follows_pure rfl
      | true =>
          refine follows_call_bind (t := ⟨.opened, none⟩) (by rw [hopen]; rfl) ?_
          rw [hopen]
          cases hexec : reply (.channelRequestExec (cstr cmd)) with
          | false =>
              refine follows_call_bind (t := ⟨.opened, none⟩) (by rw [hexec]; rfl) ?_
              rw [hexec]
              refine follows_call_bind (t := ⟨.closed, none⟩) rfl ?_
              refine follows_call_bind (t := ⟨.authenticated, none⟩) rfl ?_
              exact follows_pure rfl
          | true =>
              refine follows_call_bind (t := ⟨.opened, some (cstr cmd)⟩) (by rw [hexec]; rfl) ?_
              rw [hexec]
              refine follows_call_bind (t := ⟨.opened, some (cstr cmd)⟩) rfl ?_
              refine follows_call_bind (t := ⟨.closed, some (cstr cmd)⟩) rfl ?_
              refine follows_call_bind (t := ⟨.authenticated, some (cstr cmd)⟩) rfl ?_
              exact follows_pure rfl

/-- How `start_slaves_ssh` ends: the session is released, unless there is none or it
could not be connected. -/
def Ended (v : StartupValues) (ok : Bool) (s : SshSession) : Prop :=
  s.executed = (if ok then some (cstr (getCmd v)) else none) ∧
    (s.stage = .freed ∨ s.stage = .missing ∧ reply .new = false ∨
      s.stage = .allocated ∧ reply .connect = false)

/-- The last two calls. -/
theorem released_follows {v : StartupValues} {stage : SshStage} {executed : Option Bytes}
    (hstage : stage = .connected ∨ stage = .known ∨ stage = .authenticated) (ok : Bool)
    (hexecuted : executed = if ok then some (cstr (getCmd v)) else none) :
    Follows SshSession.next
      (do
        let _ ← call reply .disconnect
        let _ ← call reply .free
        return ok) ⟨stage, executed⟩ (Ended reply v) := by
  have hnext : SshSession.next ⟨stage, executed⟩ (.disconnect, reply .disconnect) =
      some ⟨.disconnected, executed⟩ := by
    rcases hstage with rfl | rfl | rfl <;> rfl
  refine follows_call_bind hnext ?_
  refine follows_call_bind (t := ⟨.freed, executed⟩) rfl ?_
  exact follows_pure ⟨hexecuted, Or.inl rfl⟩

theorem startSlavesSsh_ended (v : StartupValues) :
    Follows SshSession.next (startSlavesSsh reply v) SshSession.start (Ended reply v) := by
  unfold startSlavesSsh
  cases hnew : reply .new with
  | false =>
      refine follows_call_bind (t := ⟨.missing, none⟩) (by rw [hnew]; rfl) ?_
      rw [hnew]
      exact follows_pure ⟨rfl, Or.inr (Or.inl ⟨rfl, hnew⟩)⟩
  | true =>
      refine follows_call_bind (t := ⟨.allocated, none⟩) (by rw [hnew]; rfl) ?_
      rw [hnew]
      refine follows_call_bind (t := ⟨.allocated, none⟩) rfl ?_
      refine follows_call_bind (t := ⟨.allocated, none⟩) rfl ?_
      cases hconnect : reply .connect with
      | false =>
          refine follows_call_bind (t := ⟨.allocated, none⟩) (by rw [hconnect]; rfl) ?_
          rw [hconnect]
          exact follows_pure ⟨rfl, Or.inr (Or.inr ⟨rfl, hconnect⟩)⟩
      | true =>
          refine follows_call_bind (t := ⟨.connected, none⟩) (by rw [hconnect]; rfl) ?_
          rw [hconnect]
          cases hserver : reply .isKnownServer with
          | false =>
              refine follows_call_bind (t := ⟨.connected, none⟩) (by rw [hserver]; rfl) ?_
              rw [hserver]
              exact released_follows reply (Or.inl rfl) false rfl
          | true =>
              refine follows_call_bind (t := ⟨.known, none⟩) (by rw [hserver]; rfl) ?_
              rw [hserver]
              cases hauth : reply (.userauthPassword (cstr v.sshPassword)) with
              | false =>
                  refine follows_call_bind (t := ⟨.known, none⟩) (by rw [hauth]; rfl) ?_
                  rw [hauth]
                  exact released_follows reply (Or.inr (Or.inl rfl)) false rfl
              | true =>
                  refine follows_call_bind (t := ⟨.authenticated, none⟩) (by rw [hauth]; rfl) ?_
                  rw [hauth]
                  refine (runCmd_follows reply (getCmd v)).bind ?_
                  rintro ok t rfl
                  cases ok with
                  | false => exact released_follows reply (Or.inr (Or.inr rfl)) false rfl
                  | true => exact released_follows reply (Or.inr (Or.inr rfl)) true rfl

/-- Whatever the server and the library reply, `start_slaves_ssh` makes calls libssh
allows, sends the password to a known server only, succeeds exactly if the server has
accepted the command, and releases its session unless it could not be connected. -/
theorem startSlavesSsh_allowed (v : StartupValues) :
    ∃ s, (startSlavesSsh reply v []).2.foldlM SshSession.next SshSession.start = some s ∧
      s.executed = (if (startSlavesSsh reply v []).1 then some (cstr (getCmd v)) else none) ∧
      (s.stage = .freed ∨ s.stage = .missing ∧ reply .new = false ∨
        s.stage = .allocated ∧ reply .connect = false) ∧
      ∀ password ok, (.userauthPassword password, ok) ∈ (startSlavesSsh reply v []).2 →
        (.isKnownServer, true) ∈ (startSlavesSsh reply v []).2 := by
  obtain ⟨calls, s, hlog, hcalls, hexecuted, hstage⟩ := startSlavesSsh_ended reply v []
  rw [List.nil_append] at hlog
  rw [← hlog] at hcalls
  exact ⟨s, hcalls, hexecuted, hstage, (SshSession.known_of_allowed hcalls).2⟩

end Client

end ParallelGdb.Startup
