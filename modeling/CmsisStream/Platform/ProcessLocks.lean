import CmsisStream.Concurrency.ReadWriteLock
import CmsisStream.Events.Value

/-!
# Process locks of shared buffers

A `SharedBuffer` owns a descriptor, and forwards the lock calls of its process to
the memory server by the identifier of the descriptor.  The tests of the
descriptor on `MemServer::mem_server` have the wrong sense: with a server they
return an error, without one they call it.  This file compares every run of calls
with the calls that the buffers stand for.
-/

namespace CmsisStream.Platform

open Codec (Word)
open Events (Descriptor)
open ReadWriteLock (Answer Operation WriteHolds ReadHolds Excludes Serves)

/-- The functions of a buffer which use the memory server. -/
inductive ProcessCall where
  | lock
  | unlock
  | read_lock
  | read_unlock
  | refcount
deriving DecidableEq, Repr

/-- A function which changes a lock. -/
def ProcessCall.operation? : ProcessCall → Option Operation
  | .lock => some .lock
  | .unlock => some .unlock
  | .read_lock => some .readLock
  | .read_unlock => some .readUnlock
  | .refcount => none

/-- What a memory server with states `σ` does for the processes `π`: its new state and the
value which the call returns. -/
structure Server (π σ : Type) where
  perform : ProcessCall → π → Word 4 → σ → σ × ℤ

/-- A call which reached the memory server. -/
structure Request (π : Type) where
  process : π
  call : ProcessCall
  global_id : Word 4
deriving DecidableEq, Repr

/-- The memory server, and for every process its static pointer and its shared buffers. -/
structure SharedMemory (π ι σ : Type) where
  server : σ
  requests : List (Request π)
  /-- `MemServer::mem_server != nullptr` in the process -/
  mem_server : π → Bool
  /-- `fd_` of a `SharedBuffer`, null after a move -/
  fd_ : π → ι → Option Descriptor

section

variable {π ι σ : Type} (server : Server π σ)

/-- `MemServer::mem_server->lock(global_id)` and the like; no value comes back from an absent
server. -/
def SharedMemory.use (s : SharedMemory π ι σ) (call : ProcessCall) (p : π)
    (global_id : Word 4) : SharedMemory π ι σ × Option ℤ :=
  if s.mem_server p then
    let answer := server.perform call p global_id s.server
    ({ s with server := answer.1, requests := s.requests ++ [⟨p, call, global_id⟩] },
      some answer.2)
  else (s, none)

/-- The functions of a descriptor differ only in the call they end with. -/
def Descriptor.forward (call : ProcessCall) (fd : Descriptor) (p : π) (s : SharedMemory π ι σ) :
    SharedMemory π ι σ × Option ℤ :=
  if s.mem_server p then (s, some (-1)) -- `if (MemServer::mem_server != nullptr)`
  else if fd.global_id = -1 then (s, some (-1))
  else s.use server call p fd.global_id

def Descriptor.lock : Descriptor → π → SharedMemory π ι σ → SharedMemory π ι σ × Option ℤ :=
  Descriptor.forward server .lock

def Descriptor.read_lock : Descriptor → π → SharedMemory π ι σ → SharedMemory π ι σ × Option ℤ :=
  Descriptor.forward server .read_lock

def Descriptor.unlock : Descriptor → π → SharedMemory π ι σ → SharedMemory π ι σ × Option ℤ :=
  Descriptor.forward server .unlock

def Descriptor.read_unlock :
    Descriptor → π → SharedMemory π ι σ → SharedMemory π ι σ × Option ℤ :=
  Descriptor.forward server .read_unlock

def Descriptor.refcount : Descriptor → π → SharedMemory π ι σ → SharedMemory π ι σ × Option ℤ :=
  Descriptor.forward server .refcount

/-- `process_lock` and the like, with the function of the descriptor: `int err = -1; if (fd_)` -/
def SharedBuffer.process
    (function : Descriptor → π → SharedMemory π ι σ → SharedMemory π ι σ × Option ℤ) (p : π)
    (h : ι) (s : SharedMemory π ι σ) : SharedMemory π ι σ × Option ℤ :=
  match s.fd_ p h with
  | some fd => function fd p s
  | none => (s, some (-1))

def SharedBuffer.process_lock : π → ι → SharedMemory π ι σ → SharedMemory π ι σ × Option ℤ :=
  SharedBuffer.process (Descriptor.lock server)

def SharedBuffer.process_read_lock :
    π → ι → SharedMemory π ι σ → SharedMemory π ι σ × Option ℤ :=
  SharedBuffer.process (Descriptor.read_lock server)

def SharedBuffer.process_unlock : π → ι → SharedMemory π ι σ → SharedMemory π ι σ × Option ℤ :=
  SharedBuffer.process (Descriptor.unlock server)

def SharedBuffer.process_read_unlock :
    π → ι → SharedMemory π ι σ → SharedMemory π ι σ × Option ℤ :=
  SharedBuffer.process (Descriptor.read_unlock server)

def SharedBuffer.process_refcount :
    π → ι → SharedMemory π ι σ → SharedMemory π ι σ × Option ℤ :=
  SharedBuffer.process (Descriptor.refcount server)

/-- A call of a process on one of its buffers. -/
def SharedMemory.call (s : SharedMemory π ι σ) : ProcessCall → π → ι →
    SharedMemory π ι σ × Option ℤ
  | .lock, p, h => SharedBuffer.process_lock server p h s
  | .unlock, p, h => SharedBuffer.process_unlock server p h s
  | .read_lock, p, h => SharedBuffer.process_read_lock server p h s
  | .read_unlock, p, h => SharedBuffer.process_read_unlock server p h s
  | .refcount, p, h => SharedBuffer.process_refcount server p h s

/-- A step of a process. -/
inductive ProcessAction (π ι : Type) where
  | call (call : ProcessCall) (p : π) (h : ι)
  /-- a buffer is made from a descriptor -/
  | create (p : π) (h : ι) (fd : Descriptor)
  /-- the move constructor, and the move assignment -/
  | move (p : π) (dst src : ι)
  /-- the process installs its memory server or removes it -/
  | install (p : π) (present : Bool)

variable [DecidableEq π] [DecidableEq ι]

def SharedMemory.setFd (s : SharedMemory π ι σ) (p : π) (h : ι) (fd : Option Descriptor) :
    SharedMemory π ι σ :=
  { s with fd_ := Function.update s.fd_ p (Function.update (s.fd_ p) h fd) }

/-- One step, with the value of a call. -/
def SharedMemory.step (s : SharedMemory π ι σ) : ProcessAction π ι → SharedMemory π ι σ
  | .call call p h => (s.call server call p h).1
  | .create p h fd => s.setFd p h (some fd)
  | .move p dst src =>
      if dst = src then s else (s.setFd p dst (s.fd_ p src)).setFd p src none
  | .install p present => { s with mem_server := Function.update s.mem_server p present }

def SharedMemory.run (s : SharedMemory π ι σ) (actions : List (ProcessAction π ι)) :
    SharedMemory π ι σ :=
  actions.foldl (SharedMemory.step server) s

/-! ### What the calls stand for -/

/-- The call that a buffer stands for: with a server and an identifier it is made, else it is an
error without effect. -/
def SharedMemory.demanded (s : SharedMemory π ι σ) (call : ProcessCall) (p : π) (h : ι) :
    SharedMemory π ι σ × Option ℤ :=
  match s.fd_ p h with
  | some fd =>
      if s.mem_server p ∧ fd.global_id ≠ -1 then s.use server call p fd.global_id
      else (s, some (-1))
  | none => (s, some (-1))

/-- Every call of a run is the one that its buffer stands for. -/
def Forwards (s : SharedMemory π ι σ) (actions : List (ProcessAction π ι)) : Prop :=
  ∀ front call p h back, actions = front ++ .call call p h :: back →
    (s.run server front).call server call p h = (s.run server front).demanded server call p h

/-- What a process learns of the locks from a step; -1 is an error. -/
def SharedMemory.answer (s : SharedMemory π ι σ) :
    ProcessAction π ι → List (Answer (Word 4) π)
  | .call call p h =>
      match s.fd_ p h, call.operation? with
      | some fd, some operation =>
          [⟨p, operation, fd.global_id, (s.call server call p h).2.any fun value => value ≠ -1⟩]
      | _, _ => []
  | _ => []

def SharedMemory.answers (s : SharedMemory π ι σ) :
    List (ProcessAction π ι) → List (Answer (Word 4) π)
  | [] => []
  | a :: actions => s.answer server a ++ SharedMemory.answers (s.step server a) actions

/-- The calls of a run reach the memory server, and a successful write lock excludes every
other holder at each point of it. -/
structure LocksReachServer (s : SharedMemory π ι σ) (actions : List (ProcessAction π ι)) :
    Prop where
  forwards : Forwards server s actions
  excludes : ∀ front back, actions = front ++ back → Excludes (s.answers server front)

/-- Every call of a run is on a buffer which was moved from, or whose identifier is -1. -/
def OnInertBuffers (s : SharedMemory π ι σ) (actions : List (ProcessAction π ι)) : Prop :=
  ∀ front call p h back, actions = front ++ .call call p h :: back →
    ∀ fd, (s.run server front).fd_ p h = some fd → fd.global_id = -1

variable {server}

/-! ### One call -/

omit [DecidableEq π] [DecidableEq ι] in
theorem SharedMemory.call_eq (s : SharedMemory π ι σ) (call : ProcessCall) (p : π) (h : ι) :
    s.call server call p h = match s.fd_ p h with
      | some fd => Descriptor.forward server call fd p s
      | none => (s, some (-1)) := by
  cases call <;> rfl

omit [DecidableEq π] [DecidableEq ι] in
/-- On a buffer without descriptor or identifier nothing is done. -/
theorem SharedMemory.call_inert {s : SharedMemory π ι σ} {p : π} {h : ι}
    (inert : ∀ fd, s.fd_ p h = some fd → fd.global_id = -1) (call : ProcessCall) :
    s.call server call p h = (s, some (-1)) := by
  rw [call_eq]
  cases found : s.fd_ p h with
  | none => rfl
  | some fd =>
      simp only [Descriptor.forward, inert fd found]
      split_ifs <;> rfl

omit [DecidableEq π] [DecidableEq ι] in
/-- A call is the one that the buffer stands for exactly if nothing has to be done. -/
theorem SharedMemory.call_eq_demanded_iff (s : SharedMemory π ι σ) (call : ProcessCall) (p : π)
    (h : ι) : s.call server call p h = s.demanded server call p h ↔
      ∀ fd, s.fd_ p h = some fd → fd.global_id = -1 := by
  refine ⟨?_, ?_⟩
  · intro same fd found
    by_contra identified
    simp only [call_eq, demanded, found, Descriptor.forward] at same
    by_cases present : s.mem_server p = true
    · -- the request is in the history of the server, but it was not made
      rw [if_pos present, if_pos ⟨present, identified⟩, use, if_pos present] at same
      have requests := congrArg (fun outcome => outcome.1.requests.length) same
      simp at requests
    · -- the absent server is used
      rw [if_neg present, if_neg identified, if_neg fun both => present both.1, use,
        if_neg present] at same
      simp at same
  · intro inert
    rw [call_inert inert, demanded]
    cases found : s.fd_ p h with
    | none => rfl
    | some fd => simp [inert fd found]

/-! ### Runs -/

theorem SharedMemory.answers_append (s : SharedMemory π ι σ)
    (actions more : List (ProcessAction π ι)) :
    s.answers server (actions ++ more) =
      s.answers server actions ++ (s.run server actions).answers server more := by
  induction actions generalizing s with
  | nil => rfl
  | cons a actions ih => simp [answers, ih, run]

/-- Calls on inert buffers are answered with an error. -/
theorem not_granted_of_inert {s : SharedMemory π ι σ} {actions : List (ProcessAction π ι)}
    (inert : OnInertBuffers server s actions) :
    ∀ answer ∈ s.answers server actions, answer.granted = false := by
  induction actions using List.reverseRecOn with
  | nil => simp [SharedMemory.answers]
  | append_singleton actions a ih =>
      intro answer member
      rw [SharedMemory.answers_append, List.mem_append] at member
      rcases member with before | last
      · apply ih _ answer before
        intro front call p h back split
        exact inert front call p h (back ++ [a]) (by simp [split])
      · cases a with
        | call call p h =>
            have error : (s.run server actions).call server call p h =
                (s.run server actions, some (-1)) :=
              SharedMemory.call_inert (inert actions call p h [] rfl) call
            simp only [SharedMemory.answers, SharedMemory.answer, error, List.append_nil] at last
            split at last <;> simp_all
        | create p h fd => simp [SharedMemory.answers, SharedMemory.answer] at last
        | move p dst src => simp [SharedMemory.answers, SharedMemory.answer] at last
        | install p present => simp [SharedMemory.answers, SharedMemory.answer] at last

/-- The lock calls of a run reach the memory server exactly if none of them has to: each is on
a buffer which was moved from, or whose identifier is -1. -/
theorem locksReachServer_iff (s : SharedMemory π ι σ) (actions : List (ProcessAction π ι)) :
    LocksReachServer server s actions ↔ OnInertBuffers server s actions := by
  refine ⟨?_, ?_⟩
  · intro reach front call p h back split
    exact ((s.run server front).call_eq_demanded_iff call p h).mp
      (reach.forwards front call p h back split)
  · intro inert
    refine ⟨?_, ?_⟩
    · intro front call p h back split
      exact ((s.run server front).call_eq_demanded_iff call p h).mpr
        (inert front call p h back split)
    · intro front back split process other key writes
      have refused : ∀ answer ∈ s.answers server front, answer.granted = false := by
        apply not_granted_of_inert
        intro before call p h after cut
        exact inert before call p h (after ++ back) (by simp [split, cut])
      rcases writes with ⟨first, last, answers, -⟩
      have granted := refused ⟨process, .lock, key, true⟩ (by simp [answers])
      cases granted

end

/-! ### A memory server with locks -/

/-- A memory server which keeps a reader/writer lock and a reference count for every
identifier; it refuses a lock with -1. -/
def lockServer (π : Type) [DecidableEq π] :
    Server π ((Word 4 → ReadWriteLock.Entry π) × (Word 4 → ℤ)) where
  perform call p global_id s :=
    match call.operation? with
    | some operation =>
        let answer := (s.1 global_id).perform p operation
        ((Function.update s.1 global_id answer.1, s.2), if answer.2 then 0 else -1)
    | none => (s, s.2 global_id)

variable {π ι : Type} [DecidableEq π]

theorem SharedMemory.serves_demanded {s : SharedMemory π ι _}
    {answers : List (Answer (Word 4) π)} (served : Serves answers s.server.1)
    (call : ProcessCall) (p : π) (h : ι)
    (same : s.call (lockServer π) call p h = s.demanded (lockServer π) call p h) :
    Serves (answers ++ s.answer (lockServer π) (.call call p h))
      (s.call (lockServer π) call p h).1.server.1 := by
  simp only [answer, same, demanded]
  cases found : s.fd_ p h with
  | none => simpa using served
  | some fd =>
      cases known : call.operation? with
      | none =>
          simp only [List.append_nil]
          split_ifs with reaches
          · simpa [use, reaches.1, lockServer, known] using served
          · exact served
      | some operation =>
          simp only
          split_ifs with reaches
          · have step := served.perform p operation fd.global_id
            simp only [use, reaches.1, lockServer, known, if_true] at step ⊢
            convert step using 3
            cases ((s.server.1 fd.global_id).perform p operation).2 <;> simp
          · simpa using served.refuse p operation fd.global_id

variable [DecidableEq ι]

/-- Calls which reach this server keep every other holder out while a buffer is written. -/
theorem excludes_of_forwards {s : SharedMemory π ι _} {actions : List (ProcessAction π ι)}
    (start : s.server.1 = fun _ => ReadWriteLock.Entry.free)
    (forwards : Forwards (lockServer π) s actions) :
    Excludes (s.answers (lockServer π) actions) := by
  suffices served : Serves (s.answers (lockServer π) actions)
      (s.run (lockServer π) actions).server.1 from served.excludes
  induction actions using List.reverseRecOn with
  | nil =>
      change Serves [] s.server.1
      rw [start]
      exact .start
  | append_singleton actions a ih =>
      have served := ih fun front call p h back split =>
        forwards front call p h (back ++ [a]) (by simp [split])
      rw [SharedMemory.answers_append]
      simp only [SharedMemory.answers, List.append_nil, SharedMemory.run, List.foldl_append,
        List.foldl_cons, List.foldl_nil]
      cases a with
      | call call p h =>
          exact SharedMemory.serves_demanded served call p h (forwards actions call p h [] rfl)
      | create p h fd =>
          simp only [SharedMemory.answer, List.append_nil]
          exact served
      | move p dst src =>
          simp only [SharedMemory.answer, List.append_nil, SharedMemory.step]
          split_ifs <;> exact served
      | install p present =>
          simp only [SharedMemory.answer, List.append_nil]
          exact served

/-- A process with the server, a process without, and a buffer with identifier 3 in each. -/
def twoProcesses : SharedMemory Bool Unit ((Word 4 → ReadWriteLock.Entry Bool) × (Word 4 → ℤ)) where
  server := (fun _ => .free, fun _ => 1)
  requests := []
  mem_server p := p
  fd_ _ _ := some ⟨64, 3, true⟩

/-- With a server the lock is not taken, without one the absent server is called. -/
theorem locks_do_not_reach_server :
    ¬ LocksReachServer (lockServer Bool) twoProcesses [.call .lock true ()] ∧
      ¬ LocksReachServer (lockServer Bool) twoProcesses [.call .lock false ()] := by
  refine ⟨?_, ?_⟩
  · intro reach
    have requests := congrArg (fun outcome => outcome.1.requests.length)
      (reach.forwards [] .lock true () [] rfl)
    exact absurd requests (by decide)
  · intro reach
    have value := congrArg Prod.snd (reach.forwards [] .lock false () [] rfl)
    exact absurd value (by decide)

end CmsisStream.Platform
