/-
  The server with all its connections.

  A connection has one coroutine: the pass of `accept_clients` that serves it, then its
  handler.  `step` lets a new connection in, resumes one coroutine with what its await
  gives, or runs an administrative call.  Any coroutine may be resumed next.

  `step_cases` says what a step can be; `Task.handler?` are the variables of a handler.

  Nothing is assumed about the chunks that arrive.  `uuid4()` is an input of each step;
  where a result needs it to be fresh, `Fresh` says so.
-/
import Pipebomb.Accept
import Pipebomb.Admin
import Pipebomb.Lib.Run

namespace Pipebomb

open ByteString

variable {K : Type} (L : Libs K)

/-- The server and the coroutine of each connection. -/
structure Sys (K : Type) where
  server : Server K
  tasks : ConnId → Task (Accepting K)

/-- What happens next. -/
inductive Act where
  /-- `sock_accept` gives the connection -/
  | connect (c : ConnId)
  /-- the coroutine of the connection is resumed -/
  | resume (c : ConnId) (i : Input) (draw : Uuid4)
  /-- an administrative call is made -/
  | admin (op : Admin)

/-- A coroutine goes on. -/
def taskStep (s : Server K) (c : ConnId) (t : Task (Accepting K)) (i : Input) (draw : Uuid4) :
    Option (Outcome K (Accepting K)) :=
  match t with
  | .accept a => acceptStep L s c a i draw
  | .handler h => handlerStep L s c h i draw
  | _ => none

/-- The coroutine of a connection left the server in state `s` and stands at `t`. -/
def Sys.put (S : Sys K) (c : ConnId) (s : Server K) (t : Task (Accepting K)) : Sys K :=
  ⟨s, Function.update S.tasks c t⟩

/-- **One step of the server.** -/
def Sys.step (S : Sys K) : Act → Option (Sys K × List (Obs K))
  | .connect c => match S.tasks c with
    | .idle => some (S.put c S.server (.accept (.publicKey [])), [])
    | _ => none
  | .resume c i draw => match taskStep L S.server c (S.tasks c) i draw with
    | none => none
    | some (s, t, os) => some (S.put c s t, os)
  | .admin op => some (⟨(op.run S.server).1, S.tasks⟩, [])

/-- A server that just started. -/
def Sys.init (password : Bytes) (keepDeadSessions : Bool) : Sys K :=
  ⟨.init password keepDeadSessions, fun _ => .idle⟩

/-- The session a coroutine works for. -/
def Task.uses : Task (Accepting K) → Option PyStr
  | .accept (.sendLogin _ uuid _) => some uuid
  | .handler h => some h.uuid
  | _ => none

/-- The variables of `handle_client`, if the coroutine is one. -/
def Task.handler? {A : Type} : Task A → Option Handler
  | .handler h => some h
  | _ => none

theorem Task.eq_handler {A : Type} {t : Task A} {h : Handler} (ht : t.handler? = some h) :
    t = .handler h := by
  cases t with
  | handler h' => cases ht; rfl
  | _ => cases ht

instance {A : Type} (t : Task A) (e : Option PyErr) : Decidable (t = .over e) :=
  match t with
  | .over e' => decidable_of_iff (e' = e) (by simp)
  | .idle | .accept _ | .handler _ => isFalse (by simp)

/-- The uuid is new: no session has it and no coroutine works for it. -/
def Sys.Fresh (S : Sys K) (uuid : PyStr) : Prop :=
  uuid ∉ S.server.clientDb ∧ ∀ c, (S.tasks c).uses ≠ some uuid

variable {S S' : Sys K} {c c' : ConnId} {s : Server K} {t : Task (Accepting K)}

@[simp] theorem put_server : (S.put c s t).server = s := rfl

@[simp] theorem put_tasks_self : (S.put c s t).tasks c = t := Function.update_self ..

theorem put_tasks_ne (h : c' ≠ c) : (S.put c s t).tasks c' = S.tasks c' :=
  Function.update_of_ne h ..

/-- **What a step can be.** -/
theorem step_cases {a : Act} {o : List (Obs K)} (h : S.step L a = some (S', o)) :
    (∃ c, a = .connect c ∧ S.tasks c = .idle ∧ o = [] ∧
      S' = S.put c S.server (.accept (.publicKey []))) ∨
    (∃ c i draw s t, a = .resume c i draw ∧
      taskStep L S.server c (S.tasks c) i draw = some (s, t, o) ∧ S' = S.put c s t) ∨
    ∃ op, a = .admin op ∧ o = [] ∧ S' = ⟨(op.run S.server).1, S.tasks⟩ := by
  cases a with
  | connect c =>
    simp only [Sys.step] at h
    rcases ht : S.tasks c with _ | a | h' | e
    · rw [ht] at h
      cases h
      exact .inl ⟨c, rfl, ht, rfl, rfl⟩
    · rw [ht] at h; cases h
    · rw [ht] at h; cases h
    · rw [ht] at h; cases h
  | resume c i draw =>
    simp only [Sys.step] at h
    rcases ht : taskStep L S.server c (S.tasks c) i draw with _ | ⟨s, t, os⟩
    · rw [ht] at h; cases h
    · rw [ht] at h
      cases h
      exact .inr (.inl ⟨c, i, draw, s, t, rfl, ht, rfl⟩)
  | admin op =>
    cases h
    exact .inr (.inr ⟨op, rfl, rfl, rfl⟩)

end Pipebomb
