import ModuleBuild.Proofs.Artifact.Gathering
import ModuleBuild.Proofs.Attribute.Record
import ModuleBuild.Proofs.Compile.Listing
import ModuleBuild.Proofs.Compile.Pipeline

/-! # Documented declarations

Callbacks and types are declared by writing attributes, and a declaration takes up the
documentation that waits for it.  The documentation of a module is what the list of its writes
gives (`World.Takes`): of the declarations of one pair, in each of the two tables, the first that
is documented (`DocEntry.get?_gather`).

That a list has the writes of a run is said by `Run.Lists`, an instance of `Run.Along`.  A failure
ends the run, but what was written before stays.
-/
namespace ModuleBuild

open Run

theorem TypeKind.key_of_ofKey? {key : String} {kind : TypeKind} (h : ofKey? key = some kind) :
    kind.key = key := by
  unfold ofKey? at h
  simpa using List.find?_some h

theorem CallbackKind.key_of_ofKey? {key : String} {kind : CallbackKind}
    (h : ofKey? key = some kind) : kind.key = key := by
  unfold ofKey? at h
  simpa using List.find?_some h

/-! ## Writes -/

/-- A write of an attribute, with the attributes before it and the line that it stands on. -/
structure AttributeWrite where
  key : String
  value : Value
  before : AttributeTable
  line : Int

namespace AttributeWrite

/-- The documentation of what a write declares: if its key declares something, documentation
waits under `waiting`, and its value has a name and a list of parameters. -/
def documented? {κ : Type} (ofKey? : String → Option κ) (waiting : String) (x : AttributeWrite) :
    Option (DocEntry κ) :=
  match ofKey? x.key, Engine.declaredForm? x.value x.line with
  | some kind, some (pair, line) =>
    if x.before.has waiting then some { kind, pair, line, doc := x.before.read waiting } else none
  | _, _ => none

/-- The documentation of the callback that a write declares. -/
def callbackDoc? : AttributeWrite → Option (DocEntry CallbackKind) :=
  documented? CallbackKind.ofKey? "doc"

/-- The documentation of the type that a write declares. -/
def typeDoc? : AttributeWrite → Option (DocEntry TypeKind) :=
  documented? TypeKind.ofKey? "typedoc"

end AttributeWrite

/-- What a module has documented of its declarations, and what it has after some writes. -/
structure DocTables.Takes (xs : List AttributeWrite) (d d' : DocTables) : Prop where
  callbacks : d'.callbacks = DocEntry.gather d.callbacks (xs.filterMap AttributeWrite.callbackDoc?)
  types : d'.types = DocEntry.gather d.types (xs.filterMap AttributeWrite.typeDoc?)

theorem DocTables.Takes.append {xs ys : List AttributeWrite} {d d' d'' : DocTables}
    (h : Takes xs d d') (h' : Takes ys d' d'') : Takes (xs ++ ys) d d'' where
  callbacks := by
    rw [h'.callbacks, h.callbacks, List.filterMap_append]
    exact List.foldl_append.symm
  types := by
    rw [h'.types, h.types, List.filterMap_append]
    exact List.foldl_append.symm

/-- The documentation of the module under a ticket takes up that of some writes. -/
def World.Takes (t : Ticket) (xs : List AttributeWrite) (w w' : World) : Prop :=
  ∀ e, w.registry.find? t = some e →
    ∃ e', w'.registry.find? t = some e' ∧ e.docs.Takes xs e'.docs

namespace World.Takes

variable {t : Ticket} {xs ys : List AttributeWrite} {w w' w'' : World}

theorem of_registry (h : w'.registry = w.registry) : w.Takes t [] w' := fun e he =>
  ⟨e, by rw [h, he], rfl, rfl⟩

theorem append (h : w.Takes t xs w') (h' : w'.Takes t ys w'') : w.Takes t (xs ++ ys) w'' := by
  intro e he
  obtain ⟨e', he', hdocs⟩ := h e he
  obtain ⟨e'', he'', hdocs'⟩ := h' e' he'
  exact ⟨e'', he'', hdocs.append hdocs'⟩

theorem update {f : ModuleState → ModuleState}
    (h : ∀ e, w.registry.find? t = some e → e.docs.Takes xs (f e.toModuleState).docs) :
    w.Takes t xs { w with registry := w.registry.update t f } := by
  intro e he
  refine ⟨e.change f, ?_, h e he⟩
  simp only [Registry.find?_update, if_true, he, Option.map_some]

end World.Takes

theorem graded_takes (t : Ticket) : Graded (World.Takes t) where
  refl _ := .of_registry rfl
  append := .append

theorem conduct_takes (t : Ticket) : Conduct (World.Takes t []) := (graded_takes t).conduct

/-! ## Lists of writes -/

namespace Run

variable {α β γ : Type} {t : Ticket} {scope : ModuleScope}

/-- The documentation of the module takes up that of the writes which are listed for the run,
whether it ends with a result or a failure. -/
def Lists (t : Ticket) (r : Run α) (xs : World → List AttributeWrite) : Prop :=
  ∀ w, (r w).1 ≠ .error .exhausted → w.Takes t (xs w) (r w).2

theorem lists_iff_along {r : Run α} {xs : World → List AttributeWrite} :
    Lists t r xs ↔ Along (World.Takes t) (fun _ => True) r xs :=
  ⟨fun h w hne => ⟨h w hne, fun _ _ => trivial⟩, fun h w hne => (h w hne).1⟩

/-- A run that leaves the documentation of declarations alone lists nothing. -/
theorem lists_of_within {r : Run α} (h : Within (World.Takes t []) r) : Lists t r fun _ => [] := h

theorem lists_bind {x : Run α} {f : α → Run β} {xs : World → List AttributeWrite}
    {ys : α → World → List AttributeWrite} (hx : Lists t x xs) (hf : ∀ a, Lists t (f a) (ys a)) :
    Lists t (x >>= f) fun w => xs w ++ x.after ys w :=
  lists_iff_along.mpr
    (along_bind (graded_takes t) (lists_iff_along.mp hx) fun a _ => lists_iff_along.mp (hf a))

/-- What follows a run that lists nothing. -/
theorem lists_bind_of_within {x : Run α} {f : α → Run β} {ys : α → World → List AttributeWrite}
    (hx : Within (World.Takes t []) x) (hf : ∀ a, Lists t (f a) (ys a)) :
    Lists t (x >>= f) (x.after ys) :=
  lists_bind (lists_of_within hx) hf

/-- What follows a run lists nothing more. -/
theorem Lists.bind {x : Run α} {f : α → Run β} {xs : World → List AttributeWrite}
    (hx : Lists t x xs) (hf : ∀ a, Within (World.Takes t []) (f a)) : Lists t (x >>= f) xs :=
  lists_iff_along.mpr
    ((lists_iff_along.mp hx).bind (graded_takes t) fun a _ => along_of_within (hf a))

theorem lists_attempt {r : Run α} {xs : World → List AttributeWrite} (hr : Lists t r xs) :
    Lists t (attempt r) xs :=
  lists_iff_along.mpr ((along_attempt (lists_iff_along.mp hr)).mono fun _ _ => trivial)

/-! ## Runs that declare nothing -/

theorem within_takes_emit (e : Event) (answer : List Event → α) :
    Within (World.Takes t []) (emit e answer) := fun _ _ => .of_registry rfl

theorem within_takes_updateEntry {f : ModuleState → ModuleState}
    (h : ∀ s : ModuleState, s.docs.Takes [] (f s).docs) :
    Within (World.Takes scope.ticket []) (updateEntry scope f) :=
  fun _ _ => .update fun _ _ => h _

theorem within_takes_changeAttributes (f : AttributeStore → Except Condition AttributeStore) :
    Within (World.Takes scope.ticket []) (changeAttributes scope f) := by
  have hP := congruence_within (conduct_takes scope.ticket)
  change within _ (changeAttributes scope f) (changeAttributes scope f)
  exact hP.bind (hP.entry scope) fun e =>
    hP.bind (hP.ofCondition _) fun a => within_takes_updateEntry fun _ => ⟨rfl, rfl⟩

theorem notifyingLaw_takes (t : Ticket) : NotifyingLaw (within (World.Takes t [])) where
  toCongruence := congruence_within (conduct_takes t)
  emit e answer _ := within_takes_emit e answer

end Run

/-- Writing a key changes what no other key reads as. -/
theorem AttributeTable.read_of_write {t u : AttributeTable} {key k : String} {v : Value}
    (h : t.write key v = .ok u) (hk : key ≠ k) : u.read k = t.read k ∧ u.has k = t.has k := by
  unfold write at h
  split at h
  · cases h
  · cases h
    simp [read, has, readAll, hk]

namespace Engine

variable {g : Engine} {scope : ModuleScope}

theorem within_takes_recordLocal (p : NameArity) :
    Within (World.Takes scope.ticket []) (recordLocal scope p) := by
  have hP := congruence_within (conduct_takes scope.ticket)
  change within _ (recordLocal scope p) (recordLocal scope p)
  exact hP.bind (hP.entry scope) fun e =>
    hP.bind (hP.ofCondition _) fun ds => within_takes_updateEntry fun _ => ⟨rfl, rfl⟩

/-- Documentation of definitions is kept in a table of its own. -/
theorem within_takes_runBuiltin (name : String) (subject : HookSubject) :
    Within (World.Takes scope.ticket []) (runBuiltin scope name subject) := by
  have hP := congruence_within (conduct_takes scope.ticket)
  change within _ (runBuiltin scope name subject) (runBuiltin scope name subject)
  unfold runBuiltin
  split
  · cases subject with
    | definition d =>
      refine hP.bind (hP.attributes scope) fun t => ?_
      split
      · exact hP.bind (within_takes_updateEntry fun _ => ⟨rfl, rfl⟩) fun _ =>
          within_takes_changeAttributes _
      · exact hP.pure ()
    | none | artifact a => exact hP.fail _
  · split
    · exact within_takes_changeAttributes _
    · exact hP.fail _

/-! ## Writing an attribute -/

/-- The write of an attribute, if it is accepted. -/
def putWrites (scope : ModuleScope) (key : String) (v : Value) : World → List AttributeWrite :=
  (Run.attributes scope).after fun t _ =>
    match t.write key v with
    | .ok _ => [{ key, value := v, before := t, line := scope.env.line }]
    | .error _ => []

/-- What waits for a declaration is taken away, and answered if it documents the declaration. -/
theorem takePendingDoc_apply (hdocs : g.host.options.docs = true) {w : World} {e : ModuleEntry}
    {t : AttributeTable} (he : w.registry.find? scope.ticket = some e)
    (ht : e.attributes.table = some t) {waiting : String}
    (hkey : ¬AttributeTable.isReserved waiting = true) (form : Value) :
    ∃ w', g.takePendingDoc scope waiting form w =
        (.ok (if t.has waiting then (declaredForm? form scope.env.line).map fun f =>
          (f.1, f.2, t.read waiting) else none), w') ∧ w.Takes scope.ticket [] w' := by
  unfold takePendingDoc
  rw [bind_apply, attributes_apply he ht]
  simp only
  cases hhas : t.has waiting with
  | false => exact ⟨w, rfl, .of_registry rfl⟩
  | true =>
    have hdelete : ∃ u, t.delete waiting = .ok u := by
      unfold AttributeTable.delete
      rw [dif_neg hkey]
      exact ⟨_, rfl⟩
    obtain ⟨u, hu⟩ := hdelete
    have hchange : changeAttributes scope (·.delete waiting) w = _ :=
      changeAttributes_apply he ht fun t => t.delete waiting
    simp only [if_true, bind_apply, hchange, hu, hdocs]
    exact ⟨_, rfl, .update fun _ _ => ⟨rfl, rfl⟩⟩

/-- Take up what waits for a declaration of some kind. -/
def document {κ : Type} (g : Engine) (scope : ModuleScope) (waiting : String) (form : Value)
    (kind : κ) (add : DocEntry κ → DocTables → DocTables) : Run Unit := do
  if let some (pair, line, doc) ← g.takePendingDoc scope waiting form then
    Run.updateEntry scope fun e => { e with docs := add { kind, pair, line, doc } e.docs }

/-- Take up what waits for what is declared by writing a key, if it declares something. -/
def documentKey (g : Engine) (scope : ModuleScope) (key : String) (v : Value) : Run Unit :=
  match TypeKind.ofKey? key, CallbackKind.ofKey? key with
  | some kind, _ => g.document scope "typedoc" v kind fun d t => t.addType d
  | none, some kind => g.document scope "doc" v kind fun d t => t.addCallback d
  | none, none => pure ()

theorem putAttribute_eq (g : Engine) (scope : ModuleScope) (key : String) (v : Value) :
    g.putAttribute scope key v = (do
      Run.changeAttributes scope (·.write key v)
      g.documentKey scope key v) := rfl

theorem takes_document {κ : Type} {ofKey? : String → Option κ} {waiting : String} {kind : κ}
    {add : DocEntry κ → DocTables → DocTables} {x : AttributeWrite}
    (hdocs : g.host.options.docs = true) {w : World} {e : ModuleEntry} {t : AttributeTable}
    (he : w.registry.find? scope.ticket = some e) (ht : e.attributes.table = some t)
    (hkey : ¬AttributeTable.isReserved waiting = true) (hkind : ofKey? x.key = some kind)
    (hline : x.line = scope.env.line)
    (hwaiting : t.read waiting = x.before.read waiting ∧ t.has waiting = x.before.has waiting)
    (hnone : x.documented? ofKey? waiting = none → ∀ d : DocTables, d.Takes [x] d)
    (hsome : ∀ doc, x.documented? ofKey? waiting = some doc →
      ∀ d : DocTables, d.Takes [x] (add doc d)) :
    w.Takes scope.ticket [x] (g.document scope waiting x.value kind add w).2 := by
  obtain ⟨w', htake, htakes⟩ := takePendingDoc_apply hdocs he ht hkey x.value
  have hadd (doc : DocEntry κ) (h : x.documented? ofKey? waiting = some doc) :
      w.Takes scope.ticket [x] { w' with registry := w'.registry.update scope.ticket fun e =>
        { e with docs := add doc e.docs } } :=
    htakes.append (.update fun e _ => hsome doc h e.docs)
  have hkeep (h : x.documented? ofKey? waiting = none) : w.Takes scope.ticket [x] w' := by
    have hnothing : w'.Takes scope.ticket [x] w' := fun e he => ⟨e, he, hnone h e.docs⟩
    exact htakes.append hnothing
  unfold document
  rw [bind_apply, htake]
  unfold AttributeWrite.documented? at hadd hkeep
  rw [hkind, hline, ← hwaiting.1, ← hwaiting.2] at hadd hkeep
  -- whatever is taken away, the documentation is added to what is there afterwards
  cases hform : declaredForm? x.value scope.env.line with
  | none =>
    rw [hform] at hkeep
    cases t.has waiting <;> exact hkeep rfl
  | some f =>
    rw [hform] at hadd hkeep
    cases hhas : t.has waiting with
    | false => exact hkeep (by rw [hhas]; rfl)
    | true => exact hadd _ (by rw [hhas]; rfl)

/-- No key declares both a type and a callback, and what declares something is no documentation. -/
theorem declaring_cases (key : String) :
    (∃ kind, TypeKind.ofKey? key = some kind ∧ CallbackKind.ofKey? key = none ∧ key ≠ "typedoc") ∨
      (∃ kind, TypeKind.ofKey? key = none ∧ CallbackKind.ofKey? key = some kind ∧ key ≠ "doc") ∨
      (TypeKind.ofKey? key = none ∧ CallbackKind.ofKey? key = none) := by
  cases htype : TypeKind.ofKey? key with
  | some kind =>
    obtain rfl := TypeKind.key_of_ofKey? htype
    exact .inl ⟨kind, rfl, by cases kind <;> rfl, by cases kind <;> decide⟩
  | none =>
    cases hcallback : CallbackKind.ofKey? key with
    | none => exact .inr (.inr ⟨rfl, rfl⟩)
    | some kind =>
      obtain rfl := CallbackKind.key_of_ofKey? hcallback
      exact .inr (.inl ⟨kind, rfl, rfl, by cases kind <;> decide⟩)

theorem takes_documentKey (hdocs : g.host.options.docs = true) {w : World} {e : ModuleEntry}
    {t u : AttributeTable} {key : String} {v : Value} (hwrite : t.write key v = .ok u)
    (he : w.registry.find? scope.ticket = some e) (hu : e.attributes.table = some u) :
    w.Takes scope.ticket [⟨key, v, t, scope.env.line⟩] (g.documentKey scope key v w).2 := by
  let x : AttributeWrite := ⟨key, v, t, scope.env.line⟩
  have hplain : CallbackKind.ofKey? key = none → x.callbackDoc? = none := fun h => by
    simp only [AttributeWrite.callbackDoc?, AttributeWrite.documented?, x, h]
  have hplain' : TypeKind.ofKey? key = none → x.typeDoc? = none := fun h => by
    simp only [AttributeWrite.typeDoc?, AttributeWrite.documented?, x, h]
  unfold documentKey
  rcases declaring_cases key with
    ⟨kind, htype, hcallback, hne⟩ | ⟨kind, htype, hcallback, hne⟩ | ⟨htype, hcallback⟩
  · rw [htype]
    have hcallbacks := hplain hcallback
    refine takes_document (x := x) hdocs he hu (by decide) htype rfl
      (AttributeTable.read_of_write hwrite hne) (fun hnone d => ?_) fun doc hsome d => ?_
    · have htypes : x.typeDoc? = none := hnone
      constructor <;> simp [DocEntry.gather, hcallbacks, htypes]
    · have htypes : x.typeDoc? = some doc := hsome
      constructor <;> simp [DocEntry.gather, hcallbacks, htypes, DocTables.addType]
  · rw [htype, hcallback]
    have htypes := hplain' htype
    refine takes_document (x := x) hdocs he hu (by decide) hcallback rfl
      (AttributeTable.read_of_write hwrite hne) (fun hnone d => ?_) fun doc hsome d => ?_
    · have hcallbacks : x.callbackDoc? = none := hnone
      constructor <;> simp [DocEntry.gather, hcallbacks, htypes]
    · have hcallbacks : x.callbackDoc? = some doc := hsome
      constructor <;> simp [DocEntry.gather, hcallbacks, htypes, DocTables.addCallback]
  · rw [htype, hcallback]
    refine fun e he => ⟨e, he, ?_⟩
    constructor <;> simp [DocEntry.gather, x, hplain hcallback, hplain' htype]

/-- **The documentation of a declaration is kept** if it is the first of its pair. -/
theorem lists_putAttribute (hdocs : g.host.options.docs = true) (key : String) (v : Value) :
    Lists scope.ticket (g.putAttribute scope key v) (putWrites scope key v) := by
  intro w _ e he
  rw [putAttribute_eq, bind_apply]
  unfold putWrites after
  cases ht : e.attributes.table with
  | none =>
    have hchange : changeAttributes scope (·.write key v) w = _ :=
      changeAttributes_apply_of_none he ht fun t => t.write key v
    rw [attributes_apply_of_none he ht, hchange]
    exact World.Takes.of_registry rfl e he
  | some t =>
    have hchange : changeAttributes scope (·.write key v) w = _ :=
      changeAttributes_apply he ht fun t => t.write key v
    rw [attributes_apply he ht, hchange]
    cases hwrite : t.write key v with
    | error c =>
      simp only [hwrite]
      exact World.Takes.of_registry rfl e he
    | ok u =>
      simp only [hwrite]
      let f : ModuleState → ModuleState := fun s =>
        { s with attributes := { e.attributes with table := some u } }
      let w₁ : World := { w with registry := w.registry.update scope.ticket f }
      have hw₁ : w.Takes scope.ticket [] w₁ := .update fun _ _ => ⟨rfl, rfl⟩
      have he₁ : w₁.registry.find? scope.ticket = some (e.change f) := by
        simp only [w₁, Registry.find?_update, if_true, he, Option.map_some]
      exact hw₁.append (takes_documentKey hdocs hwrite he₁ rfl) e he

end Engine
end ModuleBuild
