import AutotestClient.Model.Aiostress.Worker
import AutotestClient.Shared.Ring

/-! # The lists of operations with their links

`oper_list_add`, `oper_list_del` and the loops of `aiostress/aio-stress.c` over the lists, with
the pointers that the C code follows. `none` is a read through `NULL`, or a loop that has run out
of its fuel. -/

namespace AutotestClient.Aiostress.Opers

open Shared

variable {α : Type*} [DecidableEq α]

/-- `oper_list_add`, with what is in `*list` afterwards. -/
def operListAdd (L : Links α) (oper : α) : Option α → Links α × Option α
  | none => (⟨Function.update L.next oper oper, Function.update L.prev oper oper⟩, some oper)
  | some list =>
      let L : Links α := ⟨L.next, Function.update L.prev oper (L.prev list)⟩
      let L : Links α := ⟨Function.update L.next oper list, L.prev⟩
      let L : Links α := ⟨Function.update L.next (L.prev list) oper, L.prev⟩
      (⟨L.next, Function.update L.prev list oper⟩, some list)

/-- `oper_list_del`. -/
def operListDel (L : Links α) (oper : α) : Option α → Option (Links α × Option α)
  | none => none
  | some list =>
      if L.next list = L.prev list ∧ list = L.next list then some (L, none)
      else
        let L : Links α := ⟨Function.update L.next (L.prev oper) (L.next oper), L.prev⟩
        let L : Links α := ⟨L.next, Function.update L.prev (L.next oper) (L.prev oper)⟩
        some (L, some (if list = oper then L.next oper else list))

/-- `oper_list_del(oper, &from); oper_list_add(oper, &to)`. -/
def move (L : Links α) (oper : α) (source target : Option α) :
    Option (Links α × Option α × Option α) :=
  (operListDel L oper source).map fun (L, source) =>
    let (L, target) := operListAdd L oper target
    (L, source, target)

/-- The links, `active_opers`, `built_opers` and `finished_opers`. -/
structure Heads (α : Type*) where
  links : Links α
  active : Option α
  built : Option α
  finished : Option α

def Heads.activeToBuilt (p : Heads α) (oper : α) : Option (Heads α) :=
  (move p.links oper p.active p.built).map fun (L, active, built) =>
    { p with links := L, active := active, built := built }

def Heads.activeToFinished (p : Heads α) (oper : α) : Option (Heads α) :=
  (move p.links oper p.active p.finished).map fun (L, active, finished) =>
    { p with links := L, active := active, finished := finished }

def Heads.builtToActive (p : Heads α) (oper : α) : Option (Heads α) :=
  (move p.links oper p.built p.active).map fun (L, built, active) =>
    { p with links := L, active := active, built := built }

def Heads.finishedToActive (p : Heads α) (oper : α) : Option (Heads α) :=
  (move p.links oper p.finished p.active).map fun (L, finished, active) =>
    { p with links := L, active := active, finished := finished }

/-- `while (built_opers)` of `run_active_list`; `done` is `started_ios == total_ios`. -/
def requeueLoop (done : α → Bool) : ℕ → Heads α → Option (Heads α)
  | 0, _ => none
  | fuel + 1, p =>
      match p.built with
      | none => some p
      | some oper => do
          let p ← p.builtToActive oper
          let p ← if done oper then p.activeToFinished oper else some p
          requeueLoop done fuel p

/-- The loop of `worker` over the finished operations; `restarts` is `restart_oper`. -/
def restartLoop (restarts : α → Bool) : ℕ → Option α → Heads α → Option (Heads α)
  | 0, _, _ => none
  | _ + 1, none, p => some p
  | fuel + 1, some oper, p =>
      if restarts oper then do
        let p ← p.finishedToActive oper
        restartLoop restarts fuel p.finished p
      else
        let oper := p.links.next oper
        if p.finished = some oper then some p else restartLoop restarts fuel (some oper) p

/-- The operations that a `do … while (oper != head)` goes through. -/
def visit (L : Links α) (head : α) : ℕ → α → List α
  | 0, _ => []
  | fuel + 1, oper =>
      oper :: if L.next oper = head then [] else visit L head fuel (L.next oper)

/-- `main` adds all operations to `active_opers`. -/
def create (opers : List α) (L : Links α) : Heads α :=
  let p := opers.foldl (fun (p : Links α × Option α) o => operListAdd p.1 o p.2) (L, none)
  ⟨p.1, p.2, none, none⟩

open Worker

variable {c : Config}

/-- What a step of the thread does to the lists. -/
def listStep (s : State c) (l : Label c) (p : Heads (Oper c)) : Option (Heads (Oper c)) :=
  match s.pc, l with
  | .loop, .test ending =>
      if s.more && c.stonewall && ending then
        match p.active with
        | none => some p
        | some oper => p.activeToFinished oper
      else some p
  | .build o 0 _, .built => p.activeToBuilt o
  | .submit batch, .submit ret =>
      if ret = batch.iocbs.length then
        let s := s.updateIouCounters batch.iocbs
        requeueLoop (fun o => decide ((s.opers o).startedIos = c.totalIos o)) (c.numFiles + 1) p
      else some p
  | .drained, .restart =>
      restartLoop (fun o => (restartOper c.stages (s.opers o)).isSome)
        ((c.numFiles + 1) * (c.numFiles + 1)) p.finished p
  | _, _ => some p

/-- The lists after a run that started with these links in the operations. -/
def lists (L : Links (Oper c)) : List (State c × Label c) → Option (Heads (Oper c))
  | [] => some (create (List.finRange c.numFiles) L)
  | (s, l) :: h => (lists L h).bind (listStep s l)

end AutotestClient.Aiostress.Opers
