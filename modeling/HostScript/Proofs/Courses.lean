import HostScript.Proofs.Regime
import HostScript.Proofs.Sessions

/-!
# Courses of sessions

Between runs the host acts on a session: it reads and defines global names, calls values, reads and sets
properties, writes to its cells and makes new ones, shows its own objects to scripts, and adds types,
functions and classes. `Session.Course` follows a session through all of that. How far the host goes is its
policy, a parameter. Beside the session stands an account of the programs that were run, of the values that
the host holds, and of the instances that it has lent to scripts by making them around vectors of its own.
-/

namespace HostScript

/-- What a host does with a machine between runs. -/
inductive HostAct where
  | get (i : InstanceId) (x : String) (line : Nat)
  | set (i : InstanceId) (x : String) (v : Value) (line : Nat)
  | define (x : String) (v : Value)
  /-- A function of the host. -/
  | provide (x : String) (n : Nat) (g : Builtin)
  | register (t : HostType)
  | wrap (o : HostObject)
  /-- An instance around an object, of a class that the host chooses. -/
  | expose (k : ClassId) (o : HostObject)
  /-- A class of functions, below a class. -/
  | declare (x : String) (parent : Option ClassId) (methods : List (String × CallableId))
  /-- The host writes to its cells and makes new ones. -/
  | write (cells : Cells)

/-- The host may have cells of a vector, but not of other objects that an instance is around. -/
def HostObject.lend (i : InstanceId) : HostObject → List InstanceId
  | .vector _ => [i]
  | _ => []

namespace HostAct

def Result : HostAct → Type
  | get .. | wrap .. => Value
  | set .. | define .. | provide .. | write .. => Unit
  | register .. | declare .. => ClassId
  | expose .. => InstanceId

def run : (a : HostAct) → Run a.Result
  | get i x line => Machine.getProperty i x line
  | set i x v line => Machine.setField i x v line
  | define x v => Machine.define .globals x v
  | provide x n g => Machine.defineNative x n g
  | register t => Machine.register t
  | wrap o => Machine.wrap o
  | expose k o => Machine.newInstance (.ofHost k o)
  | declare x parent methods => Machine.newClass ⟨x, parent, .ofList methods, .script⟩
  | write cells => Run.update (·.withCells cells)

/-- The values that the host has to hold. -/
def uses : HostAct → List Value
  | get i _ _ => [.instance_ i]
  | set i _ v _ => [.instance_ i, v]
  | define _ v => [v]
  | declare _ parent methods => parent.toList.map .class_ ++ methods.map fun f => .function f.2
  | provide .. | register .. | wrap .. | expose .. | write .. => []

/-- The values that the host gets hold of. -/
def gives : (a : HostAct) → a.Result → List Value
  | get .., v => [v]
  | wrap .., v => [v]
  | register .., k => [.class_ k]
  | declare .., k => [.class_ k]
  | expose .., i => [.instance_ i]
  | set .., _ | define .., _ | provide .., _ | write .., _ => []

/-- The instances that are lent. -/
def lends : (a : HostAct) → a.Result → List InstanceId
  | wrap o, v => match v with
    | .instance_ i => o.lend i
    | _ => []
  | expose _ o, i => o.lend i
  | get .., _ | set .., _ | define .., _ | provide .., _ | register .., _ | declare .., _ | write .., _ => []

end HostAct

/-- Which acts a host keeps to. -/
abbrev HostPolicy := Machine → HostAct → Prop

/-- The host leaves everything to scripts. -/
def HostPolicy.idle : HostPolicy := fun _ _ => False

/-- What comes of a result. Nothing comes of an error. -/
def gained {α β : Type} (gives : α → List β) : Except RuntimeError α → List β
  | .ok a => gives a
  | .error _ => []

theorem forall_mem_gained {α β : Type} {gives : α → List β} {r : Except RuntimeError α} {bs : List β}
    {P : β → Prop} (hr : ∀ a, r = .ok a → ∀ b ∈ gives a, P b) (hbs : ∀ b ∈ bs, P b) :
    ∀ b ∈ gained gives r ++ bs, P b := by
  cases r with
  | error e => exact hbs
  | ok a => exact List.forall_mem_append.mpr ⟨hr a rfl, hbs⟩

/-- The program of a script, if it has no errors. -/
def Compiled.runnable (c : Compiled) : List Program :=
  if c.diagnostics.hasErrors then [] else [c.program]

theorem Compiled.runnable_of_ok {c : Compiled} (h : c.diagnostics.hasErrors = false) :
    c.runnable = [c.program] := by
  rw [runnable, h]
  rfl

namespace Session

structure Account where
  /-- The programs that were run, the last one first. -/
  programs : List Program
  held : List Value
  lent : List InstanceId

def Account.empty : Account := ⟨[], [], []⟩

/-- The session `s₀` comes to `s` in the hands of a host with a policy, and its account with it. -/
inductive Course (policy : HostPolicy) (s₀ : Session) (a₀ : Account) : Session → Account → Prop where
  | here : Course policy s₀ a₀ s₀ a₀
  | ran {s s' : Session} {a : Account} {fuel : Nat} {src : Source} {r : Except RunError Unit}
      (hs : Course policy s₀ a₀ s a) (h : s.run fuel src = some (r, s')) :
      Course policy s₀ a₀ s'
        { a with programs := (Compiled.ofSource src s.nextId).runnable ++ a.programs }
  | called {s s' : Session} {a : Account} {fuel : Nat} {f : Value} {args : List Value}
      {r : Except RuntimeError Value} (hs : Course policy s₀ a₀ s a) (hf : f ∈ a.held)
      (hargs : ∀ v ∈ args, v ∈ a.held) (h : s.call fuel f args = some (r, s')) :
      Course policy s₀ a₀ s' { a with held := gained (fun v => [v]) r ++ a.held }
  | acted {s s' : Session} {a : Account} {act : HostAct} {r : Except RuntimeError act.Result}
      (hs : Course policy s₀ a₀ s a) (hact : policy s.machine act) (huses : ∀ v ∈ act.uses, v ∈ a.held)
      (h : s.perform act.run = some (r, s')) :
      Course policy s₀ a₀ s'
        { a with held := gained act.gives r ++ a.held, lent := gained act.lends r ++ a.lent }
  /-- A plain value may stand in any cell of the host. -/
  | made {s : Session} {a : Account} {v : Value} (hs : Course policy s₀ a₀ s a) (hv : v.plain = true) :
      Course policy s₀ a₀ s { a with held := v :: a.held }
  | read {s : Session} {a : Account} {x : String} {v : Value} (hs : Course policy s₀ a₀ s a)
      (hv : s.global? x = some v) : Course policy s₀ a₀ s { a with held := v :: a.held }

/-- A host that may do more may do the same. -/
theorem Course.mono {p q : HostPolicy} (hpq : ∀ m act, p m act → q m act) {s₀ s : Session}
    {a₀ a : Account} (h : Course p s₀ a₀ s a) : Course q s₀ a₀ s a := by
  induction h with
  | here => exact .here
  | ran _ hrun ih => exact .ran ih hrun
  | called _ hf hargs hcall ih => exact .called ih hf hargs hcall
  | acted _ hact huses hdo ih => exact .acted ih (hpq _ _ hact) huses hdo
  | made _ hv ih => exact .made ih hv
  | read _ hv ih => exact .read ih hv

end Session

end HostScript
