import Mathlib.Data.Option.Basic
import GoToC.Proofs.Tree.SameForm
import GoToC.Proofs.Types.Alike

/-!
# Routines that retrace each other

Two routines are compiled side by side, each against a program of its own, and the two programs
are alike. Wherever the first one succeeds, the second one succeeds with alike results, or it
ends in one of a few failures that depend on the order in which types are built. The ledger of
what corresponds to what grows as both make new structs and interfaces.
-/

namespace GoToC

variable {ledger : Ledger} {a b : Ty} {span : Span} {routine routine' : Routine}
  {value value' : Typed} {problem : Problem}

/-- A type that an expression may denote: neither a function nor a list of results. -/
def Ty.Written : Ty → Prop
  | .func _ => False
  | .multi _ => False
  | _ => True

/-- How the types of two programs are compared. -/
structure Pairing where
  left : TypeStore
  right : TypeStore
  alike : Ledger → Ty → Ty → Prop
  mono : ∀ {ledger ledger' : Ledger} {a b : Ty}, ledger ≤ ledger' → alike ledger a b →
    alike ledger' a b
  formed : ∀ {ledger : Ledger} {a b : Ty}, Shapes (alike ledger) ledger a b → a.Written →
    alike ledger a b
  /-- Whether a type of a module may be asked for while it is not built. -/
  early : Prop
  /-- The modules that a type may be looked for in. -/
  names : ModuleId → Prop

namespace Pairing

/-- The types are compared as they are once all of them are built. -/
def whole (left right : TypeStore) (early : Prop) : Pairing where
  left := left
  right := right
  alike ledger := Alike ledger left right
  mono le h := h.mono le (.refl _) (.refl _)
  formed h _ := .of_shapes h
  early := early
  names _ := True

/-- Types of members: those of fields are written down, methods are functions. -/
def MemberAlike (p : Pairing) (ledger : Ledger) (a b : Ty) : Prop :=
  p.alike ledger a b ∨ ∃ f g, a = .func f ∧ b = .func g ∧ FuncType.Twin (p.alike ledger) f g

theorem MemberAlike.imp {p q : Pairing} {ledger' : Ledger}
    (hImp : ∀ a b, p.alike ledger a b → q.alike ledger' a b) (h : p.MemberAlike ledger a b) :
    q.MemberAlike ledger' a b := by
  rcases h with h | ⟨f, g, ha, hb, hTwin⟩
  · exact .inl (hImp a b h)
  · exact .inr ⟨f, g, ha, hb, hTwin.imp hImp⟩

theorem MemberAlike.mono {p : Pairing} {ledger ledger' : Ledger} (le : ledger ≤ ledger') {a b : Ty}
    (h : p.MemberAlike ledger a b) : p.MemberAlike ledger' a b := h.imp fun _ _ => p.mono le

/-- Alike types can be followed to alike shapes. -/
class Whole (p : Pairing) : Prop where
  alike_eq : p.alike = fun ledger => Alike ledger p.left p.right
  names : ∀ id, p.names id

instance (left right : TypeStore) (early : Prop) : (whole left right early).Whole where
  alike_eq := rfl
  names _ := trivial

theorem Whole.formed {p : Pairing} [p.Whole] (h : Shapes (p.alike ledger) ledger a b) :
    p.alike ledger a b := by
  rw [Whole.alike_eq] at h ⊢
  exact .of_shapes h

theorem MemberAlike.alike {p : Pairing} [p.Whole] (h : p.MemberAlike ledger a b) :
    p.alike ledger a b := by
  rcases h with h | ⟨f, g, rfl, rfl, hTwin⟩
  · exact h
  · exact Whole.formed (.func hTwin)

end Pairing

/-- The failures that may depend on the order in which types are built. -/
def Failure.Excused (early : Prop) : Failure → Prop
  | .fault cause => cause.Excused
  | .error cause => (∃ name, cause.problem = .badType (.tooDeep name)) ∨
      early ∧ ∃ name, cause.problem = .notYetResolved name
  | .exhausted => True

/-! ## Ledgers -/

/-- The entries of a ledger fit together: twins are made alike under corresponding names, and
the numbers in invented names are among those that were handed out. -/
structure Ledger.Valid (p : Pairing) (ledger : Ledger) (serial serial' : Nat) : Prop
    extends ledger.OneToOne where
  tag : ∀ a b, ledger.twins a b → a.tag = b.tag
  package : ∀ a b, ledger.twins a b → a.package = b.package
  name : ∀ a b, ledger.twins a b → (a.name = b.name ∧ ¬ Reserved a.name) ∨
    ∃ n n', a.Invented n ∧ b.Invented n' ∧ n ≤ serial ∧ n' ≤ serial'
  members : ∀ a b, ledger.twins a b →
    List.Forall₂ (Member.Twin (p.MemberAlike ledger)) a.members b.members

/-- A ledger with more entries, which belong to one package. Their names are invented from
numbers that were not handed out before. -/
structure Ledger.Grows (before : Ledger) (package : String) (serial serial' : Nat)
    (after : Ledger) : Prop where
  le : before ≤ after
  fresh : ∀ a b, after.twins a b → before.twins a b ∨ a.package = package ∧
    ∃ n n', a.Invented n ∧ b.Invented n' ∧ serial < n ∧ serial' < n'

namespace Ledger

variable {p : Pairing} {ledger first second third : Ledger} {package : String}
  {serial serial' more more' : Nat}

theorem Grows.refl (ledger : Ledger) (package : String) (serial serial' : Nat) :
    ledger.Grows package serial serial' ledger := ⟨le_refl _, fun _ _ => .inl⟩

theorem Grows.trans (h : first.Grows package serial serial' second) (hLe : serial ≤ more)
    (hLe' : serial' ≤ more') (h' : second.Grows package more more' third) :
    first.Grows package serial serial' third := by
  refine ⟨le_trans h.le h'.le, fun a b hTwins => ?_⟩
  rcases h'.fresh a b hTwins with hOld | ⟨hPackage, n, n', ha, hb, hn, hn'⟩
  · exact h.fresh a b hOld
  · exact .inr ⟨hPackage, n, n', ha, hb, by omega, by omega⟩

theorem Valid.mono (h : ledger.Valid p serial serial') (hLe : serial ≤ more)
    (hLe' : serial' ≤ more') : ledger.Valid p more more' := by
  refine { h with name := fun a b hTwins => ?_ }
  rcases h.name a b hTwins with hSame | ⟨n, n', ha, hb, hn, hn'⟩
  · exact .inl hSame
  · exact .inr ⟨n, n', ha, hb, by omega, by omega⟩

theorem Valid.imp {q : Pairing} (h : ledger.Valid p serial serial')
    (hImp : ∀ a b, p.alike ledger a b → q.alike ledger a b) : ledger.Valid q serial serial' := by
  refine { h with members := fun a b hTwins => ?_ }
  exact (h.members a b hTwins).imp fun _ _ => .imp fun _ _ => .imp hImp

/-- Names that are invented from the next numbers differ from those in the ledger and from those
that are invented afterwards. -/
theorem Valid.fresh_titles (h : ledger.Valid p serial serial')
    (hGrows : ledger.Grows package (serial + 1) (serial' + 1) second) {a b c d : NamedType}
    (ha : a.Invented (serial + 1)) (hb : b.Invented (serial' + 1)) (hTwins : second.twins c d) :
    a.title ≠ c.title ∧ b.title ≠ d.title := by
  have hNumbers {n n' : Nat} (hc : c.Invented n) (hd : d.Invented n') (hn : n ≠ serial + 1)
      (hn' : n' ≠ serial' + 1) : a.title ≠ c.title ∧ b.title ≠ d.title :=
    ⟨fun hTitle => hn (ha.unique hc hTitle).symm, fun hTitle => hn' (hb.unique hd hTitle).symm⟩
  rcases hGrows.fresh c d hTwins with hOld | ⟨-, n, n', hc, hd, hn, hn'⟩
  · rcases h.name c d hOld with ⟨hSame, hPlain⟩ | ⟨n, n', hc, hd, hn, hn'⟩
    · constructor
      · intro hTitle
        have hName : a.name = c.name := congrArg (fun title => title.2.2) hTitle
        exact hPlain (hName ▸ ha.reserved)
      · intro hTitle
        have hName : b.name = d.name := congrArg (fun title => title.2.2) hTitle
        exact hPlain (hSame.trans hName.symm ▸ hb.reserved)
    · exact hNumbers hc hd (by omega) (by omega)
  · exact hNumbers hc hd (by omega) (by omega)

/-- An entry under names that are invented from the next numbers. -/
theorem Grows.add (h : ledger.Grows package (serial + 1) (serial' + 1) second) {a b : NamedType}
    (hPackage : a.package = package) (ha : a.Invented (serial + 1))
    (hb : b.Invented (serial' + 1)) :
    ledger.Grows package serial serial' (second.add a b) := by
  refine ⟨le_trans h.le (second.le_add a b), ?_⟩
  rintro c d (hTwins | ⟨rfl, rfl⟩)
  · rcases h.fresh c d hTwins with hOld | ⟨hOwn, n, n', hc, hd, hn, hn'⟩
    · exact .inl hOld
    · exact .inr ⟨hOwn, n, n', hc, hd, by omega, by omega⟩
  · exact .inr ⟨hPackage, _, _, ha, hb, Nat.lt_succ_self _, Nat.lt_succ_self _⟩

/-- One more entry, under titles that no other entry has. -/
theorem Valid.add (h : ledger.Valid p serial serial') {a b : NamedType}
    (hLeft : ∀ c d, ledger.twins c d → a.title ≠ c.title)
    (hRight : ∀ c d, ledger.twins c d → b.title ≠ d.title) (hTag : a.tag = b.tag)
    (hPackage : a.package = b.package) (hName : (a.name = b.name ∧ ¬ Reserved a.name) ∨
      ∃ n n', a.Invented n ∧ b.Invented n' ∧ n ≤ serial ∧ n' ≤ serial')
    (hMembers : List.Forall₂ (Member.Twin (p.MemberAlike ledger)) a.members b.members) :
    (ledger.add a b).Valid p serial serial' where
  left x y z t hFirst hSecond hTitle := by
    rcases hFirst with hFirst | ⟨rfl, rfl⟩ <;> rcases hSecond with hSecond | ⟨rfl, rfl⟩
    · exact h.left x y z t hFirst hSecond hTitle
    · exact absurd hTitle.symm (hLeft x y hFirst)
    · exact absurd hTitle (hLeft z t hSecond)
    · exact ⟨rfl, rfl⟩
  right x y z t hFirst hSecond hTitle := by
    rcases hFirst with hFirst | ⟨rfl, rfl⟩ <;> rcases hSecond with hSecond | ⟨rfl, rfl⟩
    · exact h.right x y z t hFirst hSecond hTitle
    · exact absurd hTitle.symm (hRight x y hFirst)
    · exact absurd hTitle (hRight z t hSecond)
    · exact ⟨rfl, rfl⟩
  tag := by
    rintro x y (hTwins | ⟨rfl, rfl⟩)
    exacts [h.tag x y hTwins, hTag]
  package := by
    rintro x y (hTwins | ⟨rfl, rfl⟩)
    exacts [h.package x y hTwins, hPackage]
  name := by
    rintro x y (hTwins | ⟨rfl, rfl⟩)
    exacts [h.name x y hTwins, hName]
  members := by
    have hMono (x y : Ty) (hAlike : p.MemberAlike ledger x y) := hAlike.mono (ledger.le_add a b)
    rintro x y (hTwins | ⟨rfl, rfl⟩)
    exacts [(h.members x y hTwins).imp fun _ _ => .imp hMono, hMembers.imp fun _ _ => .imp hMono]

end Ledger

/-! ## Values, environments and routines -/

/-- What expressions stand for that mean the same in two programs. The C fragments may differ in
the numbers of temporaries and of function types. -/
def Value.Twin (p : Pairing) (ledger : Ledger) : Value → Value → Prop
  | .expr e, .expr e' => p.alike ledger e.type e'.type
  | .global id name, .global id' name' => id = id' ∧ name = name'
  | .type a, .type b => p.alike ledger a b
  | .module id, .module id' => id = id'
  | .element container index, .element container' index' =>
      container.Twin p ledger container' ∧ index.Twin p ledger index'
  | .method bound, .method bound' => FuncType.Twin (p.alike ledger) bound.func bound'.func
  | _, _ => False

/-- The same for what names stand for; types may be looked for in a module that has a name. -/
structure Value.NamedTwin (p : Pairing) (ledger : Ledger) (value value' : Value) : Prop where
  twin : value.Twin p ledger value'
  names : ∀ id, value = .module id → p.names id

/-- The globals of one module; its types may not be built yet, and then they need not be alike. -/
def Value.ForeignTwin (p : Pairing) (ledger : Ledger) (value value' : Value) : Prop :=
  match value with
  | .type a => ∃ b, value' = .type b ∧ (p.left.validate a = .ok () → p.alike ledger a b ∧
      (p.right.validate b = .ok () ∨ (∃ name, p.right.validate b = .error (.tooDeep name)) ∨
        p.early ∧ ∃ name, p.right.validate b = .error (.unbound name)))
  | other => other.Twin p ledger value'

/-- Methods that twins were given. -/
def MethodEntry.Twin (p : Pairing) (ledger : Ledger) (entry entry' : StructKey × Member Ty) :
    Prop :=
  (∃ record record', ledger.twins (.struct record) (.struct record') ∧
    entry.1 = record.key ∧ entry'.1 = record'.key) ∧
    Member.Twin (p.alike ledger) entry.2 entry'.2

structure Env.Twin (p : Pairing) (ledger : Ledger) (env env' : Env) : Prop where
  left : env.program.types = p.left
  right : env'.program.types = p.right
  module : env.module = env'.module
  package : env.package = env'.package
  builtin : env.program.builtin = env'.program.builtin
  kinds : ∀ id name, (env.program.global? id name).map (·.kind) =
    (env'.program.global? id name).map (·.kind)
  own : ∀ name value, env.program.globalValue? env.module name = some value →
    ∃ value', env'.program.globalValue? env.module name = some value' ∧
      value.NamedTwin p ledger value'
  shared : ∀ id name value, env.program.builtin = some id →
    env.program.globalValue? id name = some value →
      ∃ value', env'.program.globalValue? id name = some value' ∧ value.NamedTwin p ledger value'
  foreign : ∀ id name value, p.names id → env.program.globalValue? id name = some value →
    ∃ value', env'.program.globalValue? id name = some value' ∧ value.ForeignTwin p ledger value'
  exprs : ∀ id name e, (env.program.global? id name).bind (·.value) = some (.expr e) →
    ∃ e', (env'.program.global? id name).bind (·.value) = some (.expr e') ∧
      p.alike ledger e.type e'.type
  methods : List.Forall₂ (MethodEntry.Twin p ledger) p.left.methods p.right.methods
  func : ∀ func, env.func = some func →
    ∃ func', env'.func = some func' ∧ FuncType.Twin (p.alike ledger) func func'
  namedResult : env.namedResult.isSome = env'.namedResult.isSome
  loop : env.loop.isSome = env'.loop.isSome

/-- Names that are bound to values of alike types. -/
def Binding.Twin (p : Pairing) (ledger : Ledger) (entry entry' : String × Typed) : Prop :=
  entry.1 = entry'.1 ∧ p.alike ledger entry.2.type entry'.2.type

structure Routine.Twin (p : Pairing) (ledger : Ledger) (routine routine' : Routine) : Prop where
  scopes : List.Forall₂ (List.Forall₂ (Binding.Twin p ledger)) routine.scopes routine'.scopes
  body : routine.body.isEmpty = routine'.body.isEmpty
  locals : routine.locals.isEmpty = routine'.locals.isEmpty
  valid : ledger.Valid p routine.supply.serial routine'.supply.serial

section Imp

variable {p q : Pairing} {ledger ledger' : Ledger}
  (hImp : ∀ a b, p.alike ledger a b → q.alike ledger' a b)

include hImp

theorem Value.Twin.imp {value value' : Value} (h : value.Twin p ledger value') :
    value.Twin q ledger' value' := by
  induction value generalizing value' with
  | element container index ihContainer ihIndex =>
      cases value' with
      | element => exact ⟨ihContainer h.1, ihIndex h.2⟩
      | _ => exact h.elim
  | expr e =>
      cases value' with
      | expr => exact hImp _ _ h
      | _ => exact h.elim
  | type a =>
      cases value' with
      | type => exact hImp _ _ h
      | _ => exact h.elim
  | method bound =>
      cases value' with
      | method => exact FuncType.Twin.imp hImp h
      | _ => exact h.elim
  | global => cases value' <;> exact h
  | module => cases value' <;> exact h

theorem MethodEntry.Twin.imp (le : ledger ≤ ledger') {entry entry' : StructKey × Member Ty}
    (h : MethodEntry.Twin p ledger entry entry') : MethodEntry.Twin q ledger' entry entry' := by
  obtain ⟨⟨record, record', hTwins, hKeys⟩, hMember⟩ := h
  exact ⟨⟨record, record', le _ _ hTwins, hKeys⟩, .imp hImp hMember⟩

end Imp

section Mono

variable {p : Pairing} {ledger ledger' : Ledger} (le : ledger ≤ ledger')

include le

theorem FuncType.Twin.mono {f g : FuncType Ty} (h : FuncType.Twin (p.alike ledger) f g) :
    FuncType.Twin (p.alike ledger') f g := h.imp fun _ _ => p.mono le

theorem Value.Twin.mono {value value' : Value} (h : value.Twin p ledger value') :
    value.Twin p ledger' value' := h.imp fun _ _ => p.mono le

theorem Value.NamedTwin.mono {value value' : Value} (h : value.NamedTwin p ledger value') :
    value.NamedTwin p ledger' value' := ⟨h.twin.mono le, h.names⟩

theorem Value.ForeignTwin.mono {value value' : Value} (h : value.ForeignTwin p ledger value') :
    value.ForeignTwin p ledger' value' := by
  cases value with
  | type a =>
      obtain ⟨b, hValue, hValid⟩ := h
      exact ⟨b, hValue, fun hOk => ⟨p.mono le (hValid hOk).1, (hValid hOk).2⟩⟩
  | _ => exact Value.Twin.mono le h

theorem MethodEntry.Twin.mono {entry entry' : StructKey × Member Ty}
    (h : MethodEntry.Twin p ledger entry entry') : MethodEntry.Twin p ledger' entry entry' :=
  h.imp (fun _ _ => p.mono le) le

theorem Env.Twin.mono {env env' : Env} (h : env.Twin p ledger env') : env.Twin p ledger' env' := by
  refine { h with own := ?_, shared := ?_, foreign := ?_, exprs := ?_, methods := ?_, func := ?_ }
  · intro name value hValue
    obtain ⟨value', hFound, hTwin⟩ := h.own name value hValue
    exact ⟨value', hFound, hTwin.mono le⟩
  · intro id name value hBuiltin hValue
    obtain ⟨value', hFound, hTwin⟩ := h.shared id name value hBuiltin hValue
    exact ⟨value', hFound, hTwin.mono le⟩
  · intro id name value hNames hValue
    obtain ⟨value', hFound, hForeign⟩ := h.foreign id name value hNames hValue
    exact ⟨value', hFound, hForeign.mono le⟩
  · intro id name e hValue
    obtain ⟨e', hFound, hAlike⟩ := h.exprs id name e hValue
    exact ⟨e', hFound, p.mono le hAlike⟩
  · exact h.methods.imp fun _ _ => .mono le
  · intro func hFunc
    obtain ⟨func', hFound, hTwin⟩ := h.func func hFunc
    exact ⟨func', hFound, hTwin.mono le⟩

/-- A larger ledger that is valid serves as well. -/
theorem Routine.Twin.grown (h : routine.Twin p ledger routine')
    (hValid : ledger'.Valid p routine.supply.serial routine'.supply.serial) :
    routine.Twin p ledger' routine' := by
  refine ⟨?_, h.body, h.locals, hValid⟩
  exact h.scopes.imp fun _ _ hScope => hScope.imp fun _ _ hEntry => ⟨hEntry.1, p.mono le hEntry.2⟩

end Mono

theorem forall₂_tail {α β : Type} {related : α → β → Prop} {as : List α} {bs : List β}
    (h : List.Forall₂ related as bs) : List.Forall₂ related as.tail bs.tail := by
  cases h with
  | nil => exact .nil
  | cons _ hRest => exact hRest

theorem forall₂_withBinding {p : Pairing} {scopes scopes' : List Scope}
    (h : List.Forall₂ (List.Forall₂ (Binding.Twin p ledger)) scopes scopes') (name : String)
    (hValue : p.alike ledger value.type value'.type) :
    List.Forall₂ (List.Forall₂ (Binding.Twin p ledger))
      (RoutineM.withBinding scopes name value) (RoutineM.withBinding scopes' name value') := by
  cases h with
  | nil => exact .nil
  | cons hScope hOuter => exact .cons (.cons ⟨rfl, hValue⟩ hScope) hOuter

/-- Alike blocks bind the same names. -/
theorem Routine.Twin.binding? {p : Pairing} (h : routine.Twin p ledger routine') (name : String) :
    Option.Rel (fun e e' => p.alike ledger e.type e'.type) (routine.binding? name)
      (routine'.binding? name) := by
  have hLookup {scope scope' : Scope} (hScope : List.Forall₂ (Binding.Twin p ledger) scope scope') :
      Option.Rel (fun e e' => p.alike ledger e.type e'.type) (scope.lookup name)
        (scope'.lookup name) := by
    induction hScope with
    | nil => exact .none
    | @cons entry entry' rest rest' hEntry _ ih =>
        obtain ⟨key, value⟩ := entry
        obtain ⟨key', value'⟩ := entry'
        obtain ⟨rfl, hAlike⟩ := hEntry
        rw [List.lookup_cons, List.lookup_cons]
        cases name == key with
        | true => exact .some hAlike
        | false => exact ih
  have hScopes := h.scopes
  unfold Routine.binding?
  generalize routine.scopes = scopes at hScopes ⊢
  generalize routine'.scopes = scopes' at hScopes ⊢
  induction hScopes with
  | nil => exact .none
  | @cons scope scope' outer outer' hScope _ ih =>
      rw [List.findSome?_cons, List.findSome?_cons]
      have hFound := hLookup hScope
      cases hHere : scope.lookup name with
      | none =>
          cases hThere : scope'.lookup name with
          | none => exact ih
          | some value' =>
              rw [hHere, hThere] at hFound
              cases hFound
      | some value =>
          cases hThere : scope'.lookup name with
          | none =>
              rw [hHere, hThere] at hFound
              cases hFound
          | some value' =>
              rw [hHere, hThere] at hFound
              exact hFound

/-! ## Actions -/

/-- What the second of two actions comes to where the first one succeeds. -/
inductive Retraced {α β : Type} (p : Pairing) (ledger : Ledger) (package : String)
    (routine routine' : Routine) (value : α) (after : Routine) (good : Ledger → α → β → Prop) :
    Except Failure β × Routine → Prop
  | ok {value' after' ledger'} :
      ledger.Grows package routine.supply.serial routine'.supply.serial ledger' →
      routine.supply.serial ≤ after.supply.serial →
      routine'.supply.serial ≤ after'.supply.serial →
      after.Twin p ledger' after' → good ledger' value value' →
        Retraced p ledger package routine routine' value after good (.ok value', after')
  | failed {failure after'} : failure.Excused p.early →
      Retraced p ledger package routine routine' value after good (.error failure, after')

/-- The second action does as the first one does, from any ledger on that has the entries of the
given one. -/
def Retraces {α β : Type} (p : Pairing) (ledger : Ledger) (action : RoutineM α)
    (action' : RoutineM β) (good : Ledger → α → β → Prop) : Prop :=
  ∀ now, ledger ≤ now → ∀ env env' routine routine', env.Twin p now env' →
    routine.Twin p now routine' → ∀ value after, action.exec env routine = (.ok value, after) →
      Retraced p now env.package routine routine' value after good (action'.exec env' routine')

namespace Retraces

variable {α β γ δ : Type} {p : Pairing} {ledger : Ledger} {action : RoutineM α}
  {action' : RoutineM β} {good : Ledger → α → β → Prop}

theorem pure {value : α} {value' : β} (h : ∀ now, ledger ≤ now → good now value value') :
    Retraces p ledger (pure value) (pure value') good := by
  intro now le env env' routine routine' _ hRoutine found after hRun
  cases hRun
  exact .ok (.refl _ _ _ _) (Nat.le_refl _) (Nat.le_refl _) hRoutine (h now le)

theorem bind {next : α → RoutineM γ} {next' : β → RoutineM δ} {good' : Ledger → γ → δ → Prop}
    (h : Retraces p ledger action action' good)
    (hNext : ∀ now, ledger ≤ now → ∀ value value', good now value value' →
      Retraces p now (next value) (next' value') good') :
    Retraces p ledger (action >>= next) (action' >>= next') good' := by
  intro now le env env' routine routine' hEnv hRoutine last after hRun
  obtain ⟨value, middle, hFirst, hRest⟩ := RoutineM.bind_eq_ok.mp hRun
  rw [RoutineM.bind_exec]
  have hOutcome := h now le env env' routine routine' hEnv hRoutine value middle hFirst
  cases hExec : action'.exec env' routine' with
  | mk result middle' =>
      rw [hExec] at hOutcome
      cases hOutcome with
      | failed hExcuse => exact .failed hExcuse
      | @ok value' _ grown hGrows hLe hLe' hMiddle hGood =>
          have hLast := hNext grown (le_trans le hGrows.le) value value' hGood grown (le_refl _) env
            env' middle middle' (hEnv.mono hGrows.le) hMiddle last after hRest
          show Retraced _ _ _ _ _ _ _ _ ((next' value').exec env' middle')
          cases hExec' : (next' value').exec env' middle' with
          | mk result' after' =>
              rw [hExec'] at hLast
              cases hLast with
              | failed hExcuse => exact .failed hExcuse
              | ok hGrows' hLe₁ hLe₁' hAfter hGood' =>
                  exact .ok (hGrows.trans hLe hLe' hGrows') (Nat.le_trans hLe hLe₁)
                    (Nat.le_trans hLe' hLe₁') hAfter hGood'

theorem mono {good' : Ledger → α → β → Prop} (h : Retraces p ledger action action' good)
    (imp : ∀ now, ledger ≤ now → ∀ value value', good now value value' → good' now value value') :
    Retraces p ledger action action' good' := by
  intro now le env env' routine routine' hEnv hRoutine value after hRun
  have hOutcome := h now le env env' routine routine' hEnv hRoutine value after hRun
  cases hExec : action'.exec env' routine' with
  | mk result after' =>
      rw [hExec] at hOutcome
      cases hOutcome with
      | failed hExcuse => exact .failed hExcuse
      | ok hGrows hLe hLe' hAfter hGood =>
          exact .ok hGrows hLe hLe' hAfter (imp _ (le_trans le hGrows.le) _ _ hGood)

/-- Where the first action fails, nothing is asked of the second one. -/
theorem fail {failure : Failure} : Retraces p ledger (throw failure : RoutineM α) action' good := by
  intro now le env env' routine routine' _ _ value after hRun
  cases hRun

theorem error : Retraces p ledger (RoutineM.error span problem : RoutineM α) action' good := by
  intro now le env env' routine routine' _ _ value after hRun
  cases hRun

theorem mismatch {expected found : Ty} {context : String} :
    Retraces p ledger (RoutineM.mismatch span expected found context : RoutineM α) action' good :=
  .error

/-- A check that both make alike. -/
theorem errorIf {check check' : Bool} (hSame : check = check') {span' : Span} {problem' : Problem}
    (h : check = false → Retraces p ledger action action' good) :
    Retraces p ledger (do
      if check then RoutineM.error span problem
      action) (do
      if check' then RoutineM.error span' problem'
      action') good := by
  subst hSame
  cases check with
  | true => exact Retraces.bind (Retraces.error : Retraces p ledger _
      (RoutineM.error span' problem' : RoutineM Unit) fun _ _ _ => False) fun _ _ _ _ h => h.elim
  | false => exact h rfl

theorem read : Retraces p ledger (read : RoutineM Env) (read : RoutineM Env)
    fun now env env' => env.Twin p now env' := by
  intro now le env env' routine routine' hEnv hRoutine value after hRun
  cases hRun
  exact .ok (.refl _ _ _ _) (Nat.le_refl _) (Nat.le_refl _) hRoutine hEnv

theorem get : Retraces p ledger (get : RoutineM Routine) (get : RoutineM Routine)
    fun now routine routine' => routine.Twin p now routine' := by
  intro now le env env' routine routine' hEnv hRoutine value after hRun
  cases hRun
  exact .ok (.refl _ _ _ _) (Nat.le_refl _) (Nat.le_refl _) hRoutine hRoutine

/-- A question to the type stores. -/
theorem types {ask ask' : TypeStore → Faulty _}
    (h : ∀ now, ledger ≤ now → now.OneToOne → Echoes (ask p.left) (ask' p.right) (good now)) :
    Retraces p ledger (RoutineM.types ask) (RoutineM.types ask') good := by
  intro now le env env' routine routine' hEnv hRoutine value after hRun
  obtain ⟨hAnswer, rfl⟩ := RoutineM.types_eq_ok.mp hRun
  rw [hEnv.left] at hAnswer
  rw [RoutineM.types_exec, hEnv.right]
  rcases h now le hRoutine.valid.toOneToOne value hAnswer with
    ⟨value', hEcho, hGood⟩ | ⟨fault, hEcho, hFault⟩
  · rw [hEcho]
    exact .ok (.refl _ _ _ _) (Nat.le_refl _) (Nat.le_refl _) hRoutine hGood
  · rw [hEcho]
    exact .failed hFault

/-- A question whose answer only goes into the C text. -/
theorem mild {ask ask' : TypeStore → Faulty _} (h : Mild (ask' p.right)) :
    Retraces p ledger (RoutineM.types ask : RoutineM α) (RoutineM.types ask' : RoutineM β)
      fun _ _ _ => True := .types fun _ _ _ => h.echoes

/-! ### Changes of the routine -/

/-- A change of both routines that leaves them alike and takes no number back. -/
theorem changed {change change' : Routine → Routine}
    (h : ∀ now, ledger ≤ now → ∀ routine routine', routine.Twin p now routine' →
      (change routine).Twin p now (change' routine') ∧
        routine.supply.serial ≤ (change routine).supply.serial ∧
          routine'.supply.serial ≤ (change' routine').supply.serial) :
    Retraces p ledger (modify change : RoutineM Unit) (modify change' : RoutineM Unit)
      fun _ _ _ => True := by
  intro now le env env' routine routine' _ hRoutine value after hRun
  cases hRun
  obtain ⟨hTwin, hLe, hLe'⟩ := h now le routine routine' hRoutine
  exact .ok (.refl _ _ _ _) hLe hLe' hTwin trivial

theorem emit (stmt stmt' : CStmt) :
    Retraces p ledger (RoutineM.emit stmt) (RoutineM.emit stmt') fun _ _ _ => True := by
  refine .changed fun now _ routine routine' hRoutine => ⟨?_, Nat.le_refl _, Nat.le_refl _⟩
  exact { hRoutine with body := by simp }

/-- An action that always succeeds and does nothing but take numbers. -/
def TakesNumbers (action : RoutineM α) : Prop := ∀ env routine, ∃ value count,
  action.exec env routine = (.ok value, { routine with
    supply := { routine.supply with serial := routine.supply.serial + count } })

/-- How many numbers are taken need not be the same. -/
theorem takesNumbers (h : TakesNumbers action) (h' : TakesNumbers action') :
    Retraces p ledger action action' fun _ _ _ => True := by
  intro now le env env' routine routine' _ hRoutine value after hRun
  obtain ⟨_, count, hExec⟩ := h env routine
  obtain ⟨_, count', hExec'⟩ := h' env' routine'
  rw [hExec] at hRun
  cases hRun
  rw [hExec']
  refine .ok (.refl _ _ _ _) (Nat.le_add_right _ _) (Nat.le_add_right _ _) ?_ trivial
  exact { hRoutine with
    valid := hRoutine.valid.mono (Nat.le_add_right _ _) (Nat.le_add_right _ _) }

theorem nextSerial : Retraces p ledger RoutineM.nextSerial RoutineM.nextSerial fun _ _ _ => True :=
  .takesNumbers (fun _ _ => ⟨_, 1, rfl⟩) fun _ _ => ⟨_, 1, rfl⟩

theorem newFunc {inputs outputs inputs' outputs' : List (Member Ty)} (variadic isMethod : Bool)
    (hInputs : List.Forall₂ (Member.Twin (p.alike ledger)) inputs inputs')
    (hOutputs : List.Forall₂ (Member.Twin (p.alike ledger)) outputs outputs') :
    Retraces p ledger (RoutineM.newFunc inputs outputs variadic isMethod)
      (RoutineM.newFunc inputs' outputs' variadic isMethod)
      fun now => FuncType.Twin (p.alike now) := by
  intro now le env env' routine routine' _ hRoutine value after hRun
  cases hRun
  have hMono (a b : Ty) (h : p.alike ledger a b) := p.mono le h
  refine .ok (.refl _ _ _ _) (Nat.le_refl _) (Nat.le_refl _) ⟨hRoutine.scopes, hRoutine.body,
    hRoutine.locals, hRoutine.valid⟩ ?_
  exact ⟨hInputs.imp fun _ _ => .imp hMono, hOutputs.imp fun _ _ => .imp hMono, rfl, rfl⟩

theorem capture (h : Retraces p ledger action action' good) :
    Retraces p ledger (RoutineM.capture action) (RoutineM.capture action')
      fun now value value' => good now value.1 value'.1 := by
  intro now le env env' routine routine' hEnv hRoutine value after hRun
  obtain ⟨value, stmts⟩ := value
  obtain ⟨inner, hInner, rfl, rfl⟩ := RoutineM.capture_eq_ok.mp hRun
  have hOutcome := h now le env env' { routine with body := #[] } { routine' with body := #[] } hEnv
    ⟨hRoutine.scopes, rfl, hRoutine.locals, hRoutine.valid⟩ value inner hInner
  rw [RoutineM.capture_exec]
  cases hExec : action'.exec env' { routine' with body := #[] } with
  | mk result inner' =>
      rw [hExec] at hOutcome
      cases hOutcome with
      | failed hExcuse => exact .failed hExcuse
      | ok hGrows hLe hLe' hAfter hGood =>
          exact .ok hGrows hLe hLe'
            ⟨hAfter.scopes, hRoutine.body, hAfter.locals, hAfter.valid⟩ hGood

theorem inScope (h : Retraces p ledger action action' good) :
    Retraces p ledger (RoutineM.inScope action) (RoutineM.inScope action') good := by
  intro now le env env' routine routine' hEnv hRoutine value after hRun
  obtain ⟨inner, hInner, rfl⟩ := RoutineM.inScope_eq_ok.mp hRun
  have hOutcome := h now le env env' { routine with scopes := [] :: routine.scopes }
    { routine' with scopes := [] :: routine'.scopes } hEnv
    ⟨.cons .nil hRoutine.scopes, hRoutine.body, hRoutine.locals, hRoutine.valid⟩ value inner hInner
  rw [RoutineM.inScope_exec]
  cases hExec : action'.exec env' { routine' with scopes := [] :: routine'.scopes } with
  | mk result inner' =>
      rw [hExec] at hOutcome
      cases hOutcome with
      | failed hExcuse => exact .failed hExcuse
      | ok hGrows hLe hLe' hAfter hGood =>
          refine .ok hGrows hLe hLe' ⟨?_, hAfter.body, hAfter.locals, hAfter.valid⟩ hGood
          exact forall₂_tail hAfter.scopes

theorem inLoop (number number' : Nat) (h : Retraces p ledger action action' good) :
    Retraces p ledger (RoutineM.inLoop number action) (RoutineM.inLoop number' action') good := by
  intro now le env env' routine routine' hEnv hRoutine value after hRun
  exact h now le { env with loop := some number } { env' with loop := some number' } routine
    routine' { hEnv with loop := rfl } hRoutine value after hRun

theorem bindName (name : String) (h : p.alike ledger value.type value'.type) :
    Retraces p ledger (RoutineM.bind name value) (RoutineM.bind name value')
      fun _ _ _ => True := by
  intro now le env env' routine routine' _ hRoutine found after hRun
  rw [RoutineM.bindName_exec] at hRun
  cases hRun
  rw [RoutineM.bindName_exec]
  refine .ok (.refl _ _ _ _) (Nat.le_refl _) (Nat.le_refl _)
    ⟨?_, hRoutine.body, hRoutine.locals, hRoutine.valid⟩ trivial
  exact forall₂_withBinding hRoutine.scopes name (p.mono le h)

theorem requestTypedef (type type' : Ty) :
    Retraces p ledger (RoutineM.requestTypedef type) (RoutineM.requestTypedef type')
      fun _ _ _ => True := by
  intro now le env env' routine routine' hEnv hRoutine value after hRun
  unfold RoutineM.requestTypedef at hRun ⊢
  simp only [RoutineM.bind_exec, RoutineM.get_exec, RoutineM.read_exec] at hRun ⊢
  have hMild : Mild (routine'.supply.typedefs.request env'.program.types type').1 :=
    TypeStore.mild_request _
  have hKept {supply supply' : TypedefSupply} {items items' : Array CItem} : Routine.Twin p now
        { routine with supply := { routine.supply with typedefs := supply }, typedefs := items }
        { routine' with
          supply := { routine'.supply with typedefs := supply' }, typedefs := items' } :=
    ⟨hRoutine.scopes, hRoutine.body, hRoutine.locals, hRoutine.valid⟩
  have hLeft : ∃ supply items, after =
      { routine with supply := { routine.supply with typedefs := supply }, typedefs := items } := by
    cases hItem : (routine.supply.typedefs.request env.program.types type).1 with
    | error fault =>
        rw [hItem] at hRun
        cases hRun
    | ok item =>
        rw [hItem] at hRun
        cases item <;> cases hRun <;> exact ⟨_, _, rfl⟩
  obtain ⟨supply, items, rfl⟩ := hLeft
  cases hItem : (routine'.supply.typedefs.request env'.program.types type').1 with
  | error fault => exact .failed (hMild fault hItem)
  | ok item =>
      cases item with
      | none => exact .ok (.refl _ _ _ _) (Nat.le_refl _) (Nat.le_refl _) hKept trivial
      | some item => exact .ok (.refl _ _ _ _) (Nat.le_refl _) (Nat.le_refl _) hKept trivial

/-! ### Questions about alike types -/

section Questions

variable [p.Whole] {a b a' b' : Ty}

/-- What holds of alike types may be asked of types that the pairing takes for alike. -/
theorem asks {ask ask' : TypeStore → Faulty _} (hAlike : p.alike ledger a b)
    (h : ∀ now : Ledger, Alike now p.left p.right a b →
      Echoes (ask p.left) (ask' p.right) (good now)) :
    Retraces p ledger (RoutineM.types ask) (RoutineM.types ask') good := by
  refine .types fun now le _ => h now ?_
  have hNow := p.mono le hAlike
  rwa [Pairing.Whole.alike_eq] at hNow

theorem isPrim (h : p.alike ledger a b) (prim : Prim) :
    Retraces p ledger (RoutineM.types (·.isPrim a prim)) (RoutineM.types (·.isPrim b prim))
      fun _ => Eq := .asks h fun _ hAlike => hAlike.isPrim prim

theorem isStorable (h : p.alike ledger a b) :
    Retraces p ledger (RoutineM.types (·.isStorable a)) (RoutineM.types (·.isStorable b))
      fun _ => Eq := .asks h fun _ hAlike => hAlike.isStorable

theorem hasZeroValue (h : p.alike ledger a b) :
    Retraces p ledger (RoutineM.types (·.hasZeroValue a)) (RoutineM.types (·.hasZeroValue b))
      fun _ => Eq := .asks h fun _ hAlike => hAlike.hasZeroValue

theorem element? (h : p.alike ledger a b) :
    Retraces p ledger (RoutineM.types (·.element? a)) (RoutineM.types (·.element? b))
      fun now => Option.Rel (p.alike now) :=
  .asks h fun _ hAlike => by rw [Pairing.Whole.alike_eq]; exact hAlike.element?

theorem sliceElement? (h : p.alike ledger a b) :
    Retraces p ledger (RoutineM.types (·.sliceElement? a)) (RoutineM.types (·.sliceElement? b))
      fun now => Option.Rel (p.alike now) :=
  .asks h fun _ hAlike => by rw [Pairing.Whole.alike_eq]; exact hAlike.sliceElement?

theorem struct? (h : p.alike ledger a b) :
    Retraces p ledger (RoutineM.types (·.struct? a)) (RoutineM.types (·.struct? b))
      fun now => Option.Rel fun r t => now.twins (.struct r) (.struct t) :=
  .asks h fun _ hAlike => hAlike.struct?

theorem pointeeStruct? (h : p.alike ledger a b) :
    Retraces p ledger (RoutineM.types (·.pointeeStruct? a)) (RoutineM.types (·.pointeeStruct? b))
      fun now => Option.Rel fun r t => now.twins (.struct r) (.struct t) :=
  .asks h fun _ hAlike => hAlike.pointeeStruct?

theorem interface? (h : p.alike ledger a b) :
    Retraces p ledger (RoutineM.types (·.interface? a)) (RoutineM.types (·.interface? b))
      fun now => Option.Rel fun r t => now.twins (.interface r) (.interface t) :=
  .asks h fun _ hAlike => hAlike.interface?

theorem func? (h : p.alike ledger a b) :
    Retraces p ledger (RoutineM.types (·.func? a)) (RoutineM.types (·.func? b))
      fun now => Option.Rel (FuncType.Twin (p.alike now)) :=
  .asks h fun _ hAlike => by rw [Pairing.Whole.alike_eq]; exact hAlike.func?

theorem multi? (h : p.alike ledger a b) :
    Retraces p ledger (RoutineM.types (·.multi? a)) (RoutineM.types (·.multi? b))
      fun now => Option.Rel (List.Forall₂ fun x y => p.alike now x.type y.type) :=
  .asks h fun _ hAlike => by rw [Pairing.Whole.alike_eq]; exact hAlike.multi?

/-- What holds of two pairs of alike types, in a ledger where no title belongs to two entries. -/
theorem asksBoth {ask ask' : TypeStore → Faulty _} (hAlike : p.alike ledger a b)
    (hAlike' : p.alike ledger a' b')
    (h : ∀ now : Ledger, now.OneToOne → Alike now p.left p.right a b →
      Alike now p.left p.right a' b' → Echoes (ask p.left) (ask' p.right) (good now)) :
    Retraces p ledger (RoutineM.types ask) (RoutineM.types ask') good := by
  refine .types fun now le hNow => ?_
  have hFirst := p.mono le hAlike
  have hSecond := p.mono le hAlike'
  rw [Pairing.Whole.alike_eq] at hFirst hSecond
  exact h now hNow hFirst hSecond

theorem equal (h : p.alike ledger a b) (h' : p.alike ledger a' b') :
    Retraces p ledger (RoutineM.types (·.equal a a')) (RoutineM.types (·.equal b b'))
      fun _ => Eq := .asksBoth h h' fun _ hNow => Alike.equal hNow

theorem assign (h : p.alike ledger a b) (h' : p.alike ledger a' b') :
    Retraces p ledger (RoutineM.types (·.assign a a')) (RoutineM.types (·.assign b b'))
      fun _ => Eq := .asksBoth h h' fun _ hNow => Alike.assign hNow

theorem cast (h : p.alike ledger a b) (h' : p.alike ledger a' b') :
    Retraces p ledger (RoutineM.types (·.cast a a')) (RoutineM.types (·.cast b b'))
      fun _ => Eq := .asksBoth h h' fun _ hNow => Alike.cast hNow

end Questions

end Retraces

end GoToC
