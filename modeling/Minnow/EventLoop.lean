import Minnow.FileDescriptor

/-! # The event loop

Rules watch descriptors of a program whose state they share. The answer of
`poll` and the answers that the callback gets from the kernel are arguments; a
call serves at most one rule, so one set of answers is enough.
-/

namespace Minnow

namespace EventLoop

inductive Direction where
  | input
  | output
deriving DecidableEq

/-- How a call of `waitNextEvent` ends; `threw` stands for every exception. -/
inductive Result where
  | success
  | timeout
  | exit
  | threw
deriving DecidableEq

/-- A callback that throws leaves the state as it is at that point. -/
structure BasicRule (σ : Type) where
  categoryId : Nat
  interest : σ → Bool
  callback : σ → Except σ σ
  cancelRequested : Bool := false

/-- A callback that sees a part of the state. -/
def onState {α σ : Type} (f : α → σ) : Except α α → Except σ σ
  | .ok a => .ok (f a)
  | .error a => .error (f a)

structure FDRule (σ β : Type) where
  categoryId : Nat
  fd : σ → FileDescriptor
  direction : Direction
  callback : β → σ → Except σ σ
  interest : σ → Bool
  cancel : σ → σ := id
  error : σ → σ := id
  cancelRequested : Bool := false

namespace FDRule

variable {σ β : Type}

def serviceCount (self : FDRule σ β) (s : σ) : UInt32 :=
  match self.direction with
  | .input => (self.fd s).readCount
  | .output => (self.fd s).writeCount

/-- Nothing more will be read from it, or it is closed. -/
def Defunct (self : FDRule σ β) (s : σ) : Prop :=
  self.direction = .input ∧ (self.fd s).eof = true ∨ (self.fd s).closed = true

instance (self : FDRule σ β) (s : σ) : Decidable (self.Defunct s) :=
  inferInstanceAs (Decidable (_ ∧ _ ∨ _))

end FDRule

/-- What `poll` reports of one descriptor, and whether `getsockopt` fails on it. -/
structure Revents where
  pollin : Bool := false
  pollout : Bool := false
  pollerr : Bool := false
  pollhup : Bool := false
  pollnval : Bool := false
  sockoptFails : Bool := false
deriving DecidableEq

def Revents.error (self : Revents) : Bool := self.pollerr || self.pollnval

def Revents.ready (self : Revents) : Direction → Bool
  | .input => self.pollin
  | .output => self.pollout

inductive Poll where
  | failed
  | timeout
  | ready (revents : List Revents)
deriving DecidableEq

end EventLoop

open EventLoop

structure EventLoop (σ β : Type) where
  ruleCategories : List String := []
  fdRules : List (FDRule σ β) := []
  nonFdRules : List (BasicRule σ) := []

namespace EventLoop

variable {σ β : Type}

/-- `none` when there are too many. -/
def addCategory (self : EventLoop σ β) (name : String) : Option (Nat × EventLoop σ β) :=
  if 64 ≤ self.ruleCategories.length then none
  else some (self.ruleCategories.length,
    { self with ruleCategories := self.ruleCategories ++ [name] })

def addRule (self : EventLoop σ β) (rule : FDRule σ β) : Option (EventLoop σ β) :=
  if self.ruleCategories.length ≤ rule.categoryId then none
  else some { self with fdRules := self.fdRules ++ [rule] }

/-- With a category of its own. -/
def addNamedRule (self : EventLoop σ β) (name : String) (rule : Nat → FDRule σ β) :
    Option (EventLoop σ β) :=
  match self.addCategory name with
  | none => none
  | some (categoryId, loop) => loop.addRule (rule categoryId)

/-- The callback of an interested rule, at most `left` times. -/
def fire (rule : BasicRule σ) : Nat → σ → Except σ σ
  | 0, s => if rule.interest s then .error s else .ok s
  | left + 1, s =>
    if rule.interest s then
      match rule.callback s with
      | .ok s' => fire rule left s'
      | .error s' => .error s'
    else .ok s

/-- The rules without a descriptor: `none` if none of them had anything to do. -/
def serveBasic : List (BasicRule σ) → σ → Option Result × List (BasicRule σ) × σ
  | [], s => (none, [], s)
  | r :: rules, s =>
    if r.cancelRequested then serveBasic rules s
    else if r.interest s then
      match fire r 128 s with
      | .ok s' => (some .success, r :: rules, s')
      | .error s' => (some .threw, r :: rules, s')
    else
      let rest := serveBasic rules s
      (rest.1, r :: rest.2.1, rest.2.2)

/-- The rules to poll, each with whether its event is asked for. -/
def prepare : List (FDRule σ β) → σ → List (FDRule σ β × Bool) × σ
  | [], s => ([], s)
  | r :: rules, s =>
    if r.cancelRequested then prepare rules s
    else if r.Defunct s then prepare rules (r.cancel s)
    else
      let rest := prepare rules s
      ((r, r.interest s) :: rest.1, rest.2)

/-- The answers of `poll` in the order of the rules, up to the first rule that is served. -/
def serve (answer : β) : List (FDRule σ β × Bool) → List Revents → σ →
    Result × List (FDRule σ β) × σ
  | [], _, s => (.success, [], s)
  | (r, asked) :: rules, revents, s =>
    let ev := revents.headD {}
    if ev.error then
      if ev.sockoptFails then (.threw, r :: rules.map Prod.fst, s)
      else serve answer rules revents.tail (r.cancel (r.error s))
    else
      let ready := asked && ev.ready r.direction
      if ev.pollhup && ((asked && !ready) || r.direction = .output) then
        serve answer rules revents.tail (r.cancel s)
      else if ready then
        match r.callback answer s with
        | .error s' => (.threw, r :: rules.map Prod.fst, s')
        | .ok s' =>
          if r.serviceCount s = r.serviceCount s' ∧ (r.fd s').closed = false ∧
              r.interest s' = true then
            (.threw, r :: rules.map Prod.fst, s')
          else (.success, r :: rules.map Prod.fst, s')
      else
        let rest := serve answer rules revents.tail s
        (rest.1, r :: rest.2.1, rest.2.2)

def waitNextEvent (self : EventLoop σ β) (s : σ) (poll : Poll) (answer : β) :
    Result × EventLoop σ β × σ :=
  match serveBasic self.nonFdRules s with
  | (some result, basic, s') => (result, { self with nonFdRules := basic }, s')
  | (none, basic, s') =>
    let prepared := prepare self.fdRules s'
    let left : EventLoop σ β :=
      { self with fdRules := prepared.1.map Prod.fst, nonFdRules := basic }
    if prepared.1.all fun p => !p.2 then (.exit, left, prepared.2)
    else
      match poll with
      | .failed => (.threw, left, prepared.2)
      | .timeout => (.timeout, left, prepared.2)
      | .ready revents =>
        let served := serve answer prepared.1 revents prepared.2
        (served.1, { left with fdRules := served.2.1 }, served.2.2)

end EventLoop

end Minnow
