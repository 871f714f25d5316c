/-
# Sekkeizu.Database.Deployment — the objects of all owners and the database they share.

What can happen to a deployment is a call of one of the objects, the initialisation of a new one, and a call of
the database: `database::init`, which decides by the uri and a ping whether there is a connection, and
`add_collection`, which registers a name for a key. Each event is stamped with whether there was a connection at
that moment. Nothing is destroyed.
-/
import Sekkeizu.Database.Family


namespace Sekkeizu

open PartialSystem

variable {doc callable : Type*} [Bson doc]

/-- `database::init`, of which `execute` sees whether the uri parses and the server answers the ping. -/
def Database.init (uri ping : Bool) (database : Database) : Database :=
  { database with isConnected := uri && ping }

/-- `database::get_collection`: the name registered for a key. `none` is the failed assertion. -/
def Database.getCollection (key : UInt8) (database : Database) : Option String :=
  database.collectionsMap.lookup key

/-- `database::add_collection`: `emplace` leaves a key that is there already alone. -/
def Database.addCollection (key : UInt8) (collection : String) (database : Database) : Database :=
  match database.getCollection key with
  | none => { database with collectionsMap := database.collectionsMap ++ [(key, collection)] }
  | some _ => database

/-- The objects of all owners, and the database they share. -/
structure Deployment (doc callable : Type*) where
  database : Database
  family : Finmap fun _ : UInt64 => World doc callable

/-- What can happen to a deployment. -/
inductive Deployment.Action (doc callable : Type*) where
  | init (uri ping : Bool)
  | addCollection (key : UInt8) (collection : String)
  /-- An object, new or used before, is initialised for an owner that has none. -/
  | create (owner executeEvery : UInt64) (object : Transaction doc callable)
  | call (owner : UInt64) (call : Call doc callable)

/-- A step of one object on a database that is connected or not, its events stamped with which. -/
def World.stampedStep (database : Database) :
    Step (World doc callable) (Bool × Call doc callable) (Bool × Event) :=
  fun w a =>
    (World.step { database with isConnected := a.1 } w a.2).map fun r =>
      (r.1, r.2.map fun ev => (a.1, ev))

/-- A step of one of the objects; `update` asks the family for its dependencies. -/
def Family.stampedStep (database : Database) :
    Step (Finmap fun _ : UInt64 => World doc callable) (UInt64 × Bool × Call doc callable)
      (UInt64 × Bool × Event) :=
  familyStep (World.stampedStep database) fun family a => (a.1, a.2.completed family)

/-- One step of a deployment. -/
def Deployment.step :
    Step (Deployment doc callable) (Deployment.Action doc callable) (UInt64 × Bool × Event) :=
  fun d a =>
    match a with
    | .init uri ping => some ({ d with database := d.database.init uri ping }, [])
    | .addCollection key collection =>
      some ({ d with database := d.database.addCollection key collection }, [])
    | .create owner executeEvery object =>
      if owner ∈ d.family then none
      else some ({ d with
        family := d.family.insert owner (World.start d.database executeEvery object).state }, [])
    | .call owner call =>
      (Family.stampedStep d.database d.family (owner, d.database.isConnected, call)).map fun r =>
        ({ d with family := r.1 }, r.2)

/-- A database, and nobody there. -/
def Deployment.start (database : Database) :
    Config (Deployment doc callable) (UInt64 × Bool × Event) where
  state := ⟨database, ∅⟩
  history := []

theorem stampedStep_eq_some {database : Database} {w w' : World doc callable}
    {a : Bool × Call doc callable} {evs : List (Bool × Event)} :
    World.stampedStep database w a = some (w', evs) ↔
      ∃ plain, World.step { database with isConnected := a.1 } w a.2 = some (w', plain) ∧
        evs = plain.map fun ev => (a.1, ev) := by
  simp only [World.stampedStep, Option.map_eq_some_iff, Prod.mk.injEq, Prod.exists]
  constructor
  · rintro ⟨w₁, plain, hstep, rfl, rfl⟩
    exact ⟨plain, hstep, rfl⟩
  · rintro ⟨plain, hstep, rfl⟩
    exact ⟨w', plain, hstep, rfl, rfl⟩

namespace Deployment

/-- A deployment without its database: the family, with the stamped history. -/
def view (x : Config (Deployment doc callable) (UInt64 × Bool × Event)) :
    Config (Finmap fun _ : UInt64 => World doc callable) (UInt64 × Bool × Event) :=
  ⟨x.state.family, x.history⟩

variable {x y : Config (Deployment doc callable) (UInt64 × Bool × Event)}
variable {a : Deployment.Action doc callable}

/-- **A step is a call of the database**, which no object notices, the beginning of an object, or a step of the
family. -/
theorem view_next (hnext : Deployment.step.next x a = some y) :
    view y = view x ∨
    (∃ owner executeEvery object, a = .create owner executeEvery object ∧
      x.state.family.lookup owner = none ∧ y = ⟨⟨x.state.database, x.state.family.insert owner
        (World.start x.state.database executeEvery object).state⟩, x.history⟩) ∨
    ∃ owner call, a = .call owner call ∧
      (Family.stampedStep x.state.database).next (view x) (owner, x.state.database.isConnected, call) =
        some (view y) := by
  obtain ⟨d, evs, hstep, rfl⟩ := Step.next_eq_some.mp hnext
  cases a with
  | init uri ping =>
      obtain ⟨rfl, rfl⟩ := Prod.mk.inj (Option.some.inj hstep)
      exact Or.inl (by simp [view])
  | addCollection key collection =>
      obtain ⟨rfl, rfl⟩ := Prod.mk.inj (Option.some.inj hstep)
      exact Or.inl (by simp [view])
  | create owner executeEvery object =>
      simp only [Deployment.step] at hstep
      split_ifs at hstep with hmem
      obtain ⟨rfl, rfl⟩ := Prod.mk.inj (Option.some.inj hstep)
      exact Or.inr (Or.inl ⟨owner, executeEvery, object, rfl, Finmap.lookup_eq_none.mpr hmem, by simp⟩)
  | call owner call =>
      obtain ⟨⟨family, evs'⟩, hfamily, heq⟩ := Option.map_eq_some_iff.mp hstep
      obtain ⟨rfl, rfl⟩ := Prod.mk.inj heq
      exact Or.inr (Or.inr ⟨owner, call, rfl, Step.next_eq_some.mpr ⟨family, evs', hfamily, rfl⟩⟩)

end Deployment

end Sekkeizu
