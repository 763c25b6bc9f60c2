import LiteDbModel.ClassChain
import LiteDbModel.Lib.Run

/-!
# The type cast of a process

The casts of the array families and of json go through one process-wide
implementation, which the constructor of every `DBHandler` sets to its own
dialect's. A model reads its rows under whichever handler was created last.
-/

namespace LiteDb.TypeCasts
set_option autoImplicit false
open Keyed ClassChain Families

/-! ## Models -/

/-- How a column is cast: not at all, by a function of its own (a text, a number, a date, a custom
cast), or as one of the families that ask the type cast or the shared materializer. -/
inductive ColumnCast
  | passthrough
  | fixed (cast : TypeCastFn)
  | family (f : Family)

structure ColumnDecl where
  columnName : String
  cast : ColumnCast

variable (R : Runtime)

/-- The column's metadata while a dialect's implementation is the current one. -/
def ColumnDecl.under (current : Dialect) (column : ColumnDecl) : ColumnMeta where
  columnName := column.columnName
  typeCast :=
    match column.cast with
    | .passthrough => none
    | .fixed cast => some cast
    | .family f => some (f.cast R current)

inductive ClassDecl
  | dbModel
  | model (base : ClassDecl) (declared : List (String × ColumnDecl)) (fields : ClassChain.Obj)

def ClassDecl.under (current : Dialect) : ClassDecl → ClassChain.Class
  | .dbModel => .dbModel
  | .model base declared fields =>
    .model (base.under current) (declared.map fun p => (p.1, p.2.under R current)) fields

/-- A class and the driver of its database. -/
structure Model where
  decl : ClassDecl
  driver : Dialect

/-- The properties of the instance built from a row; `none` where a cast throws. -/
def Model.values (m : Model) (current : Dialect) (row : ClassChain.Row) :
    Option (String → JsVal) :=
  ((m.decl.under R current).createInstance row).toOption.map ClassChain.Obj.get

/-! ## The process -/

structure Read where
  model : Model
  row : ClassChain.Row
  values : Option (String → JsVal)

structure Process where
  /-- The dialects of the handlers, the last one created first. -/
  handlers : List Dialect
  reads : List Read

def init : Process := ⟨[], []⟩

/-- `currentTypeCast`, as the constructors left it. -/
def Process.currentTypeCast (s : Process) : Option Dialect := s.handlers.head?

inductive Action
  | create (driver : Dialect)
  /-- A statement, a transaction or a connection of a handler that exists. -/
  | use (driver : Dialect)
  | read (model : Model) (row : ClassChain.Row)

def step (s : Process) : Action → Option Process
  | .create driver => some { s with handlers := driver :: s.handlers }
  | .use driver => if driver ∈ s.handlers then some s else none
  | .read model row =>
    if model.driver ∈ s.handlers then
      s.currentTypeCast.map fun current =>
        { s with reads := ⟨model, row, model.values R current row⟩ :: s.reads }
    else none

/-- Every read gave what the model's own dialect makes of the row. -/
def Process.Own (s : Process) : Prop :=
  ∀ r ∈ s.reads, r.values = r.model.values R r.model.driver r.row

/-- The two dialects make the same of what stands under every declared property, or both refuse the
row. -/
def Model.Agree (m : Model) (current : Dialect) (row : ClassChain.Row) : Prop :=
  (∀ p ∈ (m.decl.under R m.driver).columns, ∃ v,
      (m.decl.under R current).castsOf p.1 ((m.decl.under R m.driver).given row p.1) = .ok v ∧
      (m.decl.under R m.driver).castsOf p.1 ((m.decl.under R m.driver).given row p.1) = .ok v) ∨
    ((m.decl.under R current).RefusesGiven row ∧ (m.decl.under R m.driver).RefusesGiven row)

/-- The handler created last has the model's dialect, or the dialects agree on the row. -/
def Quiet (s : Process) : Action → Prop
  | .read model row => ∀ current, s.currentTypeCast = some current →
      current = model.driver ∨ model.Agree R current row
  | _ => True

/-! ## Two dialects -/

def ClassDecl.columns : ClassDecl → List (String × ColumnDecl)
  | .dbModel => []
  | .model base declared _ => declared.foldl (fun m p => Keyed.put p.1 p.2 m) base.columns

theorem columns_under (c : ClassDecl) (d : Dialect) :
    (c.under R d).columns = c.columns.map fun p => (p.1, p.2.under R d) := by
  induction c with
  | dbModel => rfl
  | model base declared fields ih =>
    rw [ClassDecl.under, ClassChain.Class.columns, ih, ClassDecl.columns]
    exact foldl_put_map _ declared base.columns

theorem create_under (c : ClassDecl) (d d' : Dialect) : (c.under R d).create = (c.under R d').create := by
  induction c with
  | dbModel => rfl
  | model base declared fields ih => simp only [ClassDecl.under, ClassChain.Class.create, ih]

theorem given_under (c : ClassDecl) (d d' : Dialect) (row : ClassChain.Row) (k : String) :
    (c.under R d).given row k = (c.under R d').given row k := by
  rw [ClassChain.Class.given, ClassChain.Class.given, create_under R c d d']

theorem keys_under (c : ClassDecl) (d d' : Dialect) {k : String} :
    k ∈ (c.under R d).columns.map (·.1) ↔ k ∈ (c.under R d').columns.map (·.1) := by
  simp only [columns_under, List.map_map]
  exact Iff.rfl

theorem values_some {m : Model} {d : Dialect} {row : ClassChain.Row} {inst : ClassChain.Obj}
    (h : (m.decl.under R d).createInstance row = .ok inst) :
    m.values R d row = some inst.get := by
  rw [Model.values, h]
  rfl

theorem values_none {m : Model} {d : Dialect} {row : ClassChain.Row} :
    m.values R d row = none ↔ (m.decl.under R d).RefusesGiven row := by
  constructor
  · intro h
    by_contra hgiven
    obtain ⟨inst, hinst⟩ := createInstance_ok hgiven
    rw [values_some R hinst] at h
    cases h
  · rintro ⟨p, hp, e, he⟩
    cases hinst : (m.decl.under R d).createInstance row with
    | ok inst =>
      rw [createInstance_get hinst p.1] at he
      cases he
    | error e => rw [Model.values, hinst]; rfl

/-- A property that no class declares holds what was given. -/
theorem get_undeclared {c : ClassChain.Class} {row : ClassChain.Row} {inst : ClassChain.Obj}
    {k : String}
    (h : c.createInstance row = .ok inst) (hk : k ∉ c.columns.map (·.1)) :
    inst.get k = c.given row k := by
  have hget := createInstance_get h k
  rw [castsOf_undeclared hk] at hget
  exact (Except.ok.inj hget).symm

theorem values_eq_iff (m : Model) (current : Dialect) (row : ClassChain.Row) :
    m.values R current row = m.values R m.driver row ↔ m.Agree R current row := by
  constructor
  · intro h
    cases hown : (m.decl.under R m.driver).createInstance row with
    | error e =>
      have hnone : m.values R m.driver row = none := by
        rw [Model.values, hown]
        rfl
      exact .inr ⟨(values_none R).mp (h.trans hnone), (values_none R).mp hnone⟩
    | ok inst =>
      rw [values_some R hown] at h
      cases hcur : (m.decl.under R current).createInstance row with
      | error e =>
        rw [Model.values, hcur] at h
        cases h
      | ok inst' =>
        rw [values_some R hcur] at h
        have hget := Option.some_inj.mp h
        refine .inl fun p _ => ⟨inst.get p.1, ?_, createInstance_get hown p.1⟩
        rw [← congrFun hget p.1, given_under R m.decl m.driver current]
        exact createInstance_get hcur p.1
  · rintro (hall | ⟨hcur, hown⟩)
    · have hown : ¬ (m.decl.under R m.driver).RefusesGiven row := by
        rintro ⟨p, hp, e, he⟩
        obtain ⟨v, -, hv⟩ := hall p hp
        rw [hv] at he
        cases he
      have hcur : ¬ (m.decl.under R current).RefusesGiven row := by
        rintro ⟨p, hp, e, he⟩
        obtain ⟨q, hq, hqp⟩ := List.mem_map.mp
          ((keys_under R m.decl current m.driver).mp (List.mem_map_of_mem hp))
        obtain ⟨v, hv, -⟩ := hall q hq
        rw [hqp, given_under R m.decl m.driver current] at hv
        rw [hv] at he
        cases he
      obtain ⟨inst, hinst⟩ := createInstance_ok hown
      obtain ⟨inst', hinst'⟩ := createInstance_ok hcur
      rw [values_some R hinst, values_some R hinst']
      congr 1
      funext k
      by_cases hk : k ∈ (m.decl.under R m.driver).columns.map (·.1)
      · obtain ⟨p, hp, rfl⟩ := List.mem_map.mp hk
        obtain ⟨v, hv, hv'⟩ := hall p hp
        rw [createInstance_get hinst p.1] at hv'
        rw [given_under R m.decl m.driver current, createInstance_get hinst' p.1] at hv
        exact (Except.ok.inj hv).trans (Except.ok.inj hv').symm
      · have hk' := fun h => hk ((keys_under R m.decl current m.driver).mp h)
        rw [get_undeclared hinst hk, get_undeclared hinst' hk', given_under R m.decl current m.driver]
    · rw [(values_none R).mpr hcur, (values_none R).mpr hown]

/-! ## Every order -/

theorem step_own (s : Process) (a : Action) (t : Process) (_ : True) (hs : s.Own R)
    (h : step R s a = some t) : t.Own R ↔ Quiet R s a := by
  cases a with
  | create driver =>
    cases h
    exact iff_of_true hs trivial
  | use driver =>
    obtain ⟨-, h⟩ := Option.ite_none_right_eq_some.mp h
    cases h
    exact iff_of_true hs trivial
  | read model row =>
    obtain ⟨-, h⟩ := Option.ite_none_right_eq_some.mp h
    obtain ⟨current, hcurrent, rfl⟩ := Option.map_eq_some_iff.mp h
    constructor
    · intro ht d hd
      rw [hcurrent] at hd
      cases hd
      exact .inr ((values_eq_iff R model current row).mp (ht _ List.mem_cons_self))
    · intro hq r hr
      rcases List.mem_cons.mp hr with rfl | hr
      · rcases hq current hcurrent with rfl | hagree
        · rfl
        · exact (values_eq_iff R model current row).mpr hagree
      · exact hs r hr

/-- Over any order of creating and using handlers and reading rows, every read gives what the model's
own dialect makes of the row exactly when at each read the last handler created has the model's
dialect or makes the same of the row. -/
theorem reads_own_iff (actions : List Action) :
    Run.Along (step R) (Process.Own R) init actions ↔ Run.Steps (step R) (Quiet R) init actions :=
  Run.along_iff_steps (fun _ _ _ _ _ => trivial) (step_own R) trivial
    fun _ hr => absurd hr List.not_mem_nil

/-! ## Where dialects agree -/

/-- A boolean or a date-time column is cast alike under every dialect. -/
theorem cast_boolean (d d' : Dialect) : Family.cast R d .boolean = Family.cast R d' .boolean := rfl

theorem cast_datetime (d d' : Dialect) : Family.cast R d .datetime = Family.cast R d' .datetime := rfl

/-- PostgreSQL and MySQL cast a json cell alike. -/
theorem cast_json : Family.cast R .postgres .json = Family.cast R .mysql .json := rfl

theorem castToBoolean_text (s : String) :
    castToBoolean .mysql (.str s) = castToBoolean .sqlite (.str s) := by
  simp [castToBoolean]

/-- MySQL and SQLite cast every array alike. -/
theorem cast_array (f : Family) (h : f ≠ .json) : Family.cast R .mysql f = Family.cast R .sqlite f := by
  cases f with
  | json => exact absurd rfl h
  | booleanArray =>
    have hall : castToBooleanArray R .mysql = castToBooleanArray R .sqlite := by
      funext v
      simp only [castToBooleanArray, castToBoolean_text]
      rfl
    simp only [Family.cast, hall]
  | _ => rfl

/-- A SQLite model with a json column. -/
def note : Model where
  decl := .model .dbModel [("body", ⟨"body", .family .json⟩)] []
  driver := .sqlite

def noteRow : ClassChain.Row := ⟨[("body", .str "{}")], by decide⟩

/-- A PostgreSQL handler created later leaves the text undecoded. -/
theorem json_left_text : ¬ Run.Along (step isoRuntime) (Process.Own isoRuntime) init
    [.create .sqlite, .create .postgres, .read note noteRow] := by
  intro h
  obtain ⟨-, h⟩ := h
  obtain ⟨-, h⟩ := h _ rfl
  obtain ⟨-, h⟩ := h _ rfl
  have hown := h _ rfl _ List.mem_cons_self
  have hbody := congrFun (Option.some_inj.mp hown) "body"
  cases hbody

end LiteDb.TypeCasts
