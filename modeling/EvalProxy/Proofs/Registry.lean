/-
# Registrations

A name is bound once. A registration that fails leaves the registry as it was; one that works adds a
single name of its kind, which keeps its factory through all that follows. So presets on top of one
another hand down to the factory at their base what each of them puts over the defaults below it.

Main definitions: `Registration`, `Registration.Offers`, `Gains`, `registered`, `Layer`.
Main statements: `Registration.register_cases`, `resolve_registered_iff`, `resolve_outermost`,
`extends_discover`, `keeps_names_and_layers_presets`.
-/
import EvalProxy.Discovery.Catalog
import EvalProxy.Proofs.Json.Fields
import EvalProxy.Proofs.Toml.Tables
namespace EvalProxy

variable {ι κ : Type}

/-! ## Both kinds at once -/

/-- The components of a kind. -/
def ComponentKind.Component (ι κ : Type) : ComponentKind → Type
  | .interceptor => ι
  | .hook => κ

namespace Registry

/-- The factory of a name among the components of a kind. -/
def resolve (r : Registry ι κ) :
    (kind : ComponentKind) → String → Option (Factory (kind.Component ι κ))
  | .interceptor, name => r.interceptors.get? name
  | .hook, name => r.hooks.get? name

/-- Builds a component of a kind. -/
def make (r : Registry ι κ) :
    (kind : ComponentKind) → String → Json → String → World →
      Except Failure (kind.Component ι κ) × World
  | .interceptor => r.buildInterceptor
  | .hook => r.buildHook

/-- The registry with a name bound. -/
def bind (r : Registry ι κ) :
    (kind : ComponentKind) → String → Factory (kind.Component ι κ) → Registry ι κ
  | .interceptor, name, f => { r with interceptors := r.interceptors.insert name f }
  | .hook, name, f => { r with hooks := r.hooks.insert name f }

variable {r : Registry ι κ} {kind kind' : ComponentKind} {name name' : String}
  {f : Factory (kind.Component ι κ)}

/-- A name that has a factory is built by it. -/
theorem make_eq (h : r.resolve kind name = some f) (settings : Json) (directory : String)
    (w : World) : r.make kind name settings directory w = f settings directory w := by
  cases kind with
  | interceptor =>
    have h : r.interceptors.get? name = some f := h
    rw [make, buildInterceptor, Factories.build, h]
  | hook =>
    have h : r.hooks.get? name = some f := h
    rw [make, buildHook, Factories.build, h]

/-- A name that was bound has its factory. -/
theorem resolve_bind_self (r : Registry ι κ) (f : Factory (kind.Component ι κ)) :
    (r.bind kind name f).resolve kind name = some f := by
  cases kind with
  | interceptor => exact (Dict.get?_insert r.interceptors name name f).trans (if_pos rfl)
  | hook => exact (Dict.get?_insert r.hooks name name f).trans (if_pos rfl)

/-- Names of the other kind are other names. -/
theorem resolve_bind_of_ne (r : Registry ι κ) (f : Factory (kind.Component ι κ))
    (hne : (kind, name) ≠ (kind', name')) :
    (r.bind kind name f).resolve kind' name' = r.resolve kind' name' := by
  cases kind with
  | interceptor =>
    cases kind' with
    | interceptor =>
      have hname : name ≠ name' := fun heq => hne (by rw [heq])
      exact (Dict.get?_insert r.interceptors name name' f).trans (if_neg hname)
    | hook => rfl
  | hook =>
    cases kind' with
    | interceptor => rfl
    | hook =>
      have hname : name ≠ name' := fun heq => hne (by rw [heq])
      exact (Dict.get?_insert r.hooks name name' f).trans (if_neg hname)

end Registry

/-! ## Adding a name -/

theorem map_eq_ok_iff {α β : Type} {f : α → β} {a : Except Failure α} {b : β} :
    a.map f = .ok b ↔ ∃ c, a = .ok c ∧ f c = b := by
  cases a <;> simp [Except.map]

namespace Factories

variable {α : Type} {fs : Factories α} {name : String}

/-- A name is added exactly if it is new. -/
theorem add_eq_ok_iff (noun : String) (f : Factory α) {fs' : Factories α} :
    fs.add noun name f = .ok fs' ↔ fs.get? name = none ∧ fs' = fs.insert name f := by
  rw [add, Dict.contains]
  cases fs.get? name with
  | none => simp [eq_comm]
  | some g => simp

/-- A preset is added exactly if its base is there and its name is new. -/
theorem addPreset_eq_ok_iff (noun base : String) (defaults : Json) {fs' : Factories α} :
    fs.addPreset noun name base defaults = .ok fs' ↔
      ∃ f, fs.get? base = some f ∧ fs.get? name = none ∧
        fs' = fs.insert name fun given => f (mergeSettings defaults given) := by
  rw [addPreset]
  cases fs.get? base with
  | none => simp
  | some f => simp [add_eq_ok_iff]

end Factories

namespace Registry

variable {r r' : Registry ι κ} {name : String}

/-- A stage is added exactly if its name is free. -/
theorem addInterceptor_eq_ok_iff {f : Factory ι} :
    r.addInterceptor name f = .ok r' ↔
      r.resolve .interceptor name = none ∧ r' = r.bind .interceptor name f := by
  simp only [addInterceptor, map_eq_ok_iff, Factories.add_eq_ok_iff, and_assoc, exists_and_left,
    exists_eq_left]
  exact and_congr_right' eq_comm

theorem addHook_eq_ok_iff {f : Factory κ} :
    r.addHook name f = .ok r' ↔ r.resolve .hook name = none ∧ r' = r.bind .hook name f := by
  simp only [addHook, map_eq_ok_iff, Factories.add_eq_ok_iff, and_assoc, exists_and_left,
    exists_eq_left]
  exact and_congr_right' eq_comm

/-- A preset is bound to what its base is at that time. -/
theorem addPreset_eq_ok_iff {kind : ComponentKind} {base : String} {defaults : Json} :
    r.addPreset kind name base defaults = .ok r' ↔
      ∃ f, r.resolve kind base = some f ∧ r.resolve kind name = none ∧
        r' = r.bind kind name fun given => f (mergeSettings defaults given) := by
  cases kind with
  | interceptor =>
    simp only [addPreset, map_eq_ok_iff, Factories.addPreset_eq_ok_iff]
    constructor
    · rintro ⟨_, ⟨f, hbase, hnew, rfl⟩, rfl⟩
      exact ⟨f, hbase, hnew, rfl⟩
    · rintro ⟨f, hbase, hnew, rfl⟩
      exact ⟨_, ⟨f, hbase, hnew, rfl⟩, rfl⟩
  | hook =>
    simp only [addPreset, map_eq_ok_iff, Factories.addPreset_eq_ok_iff]
    constructor
    · rintro ⟨_, ⟨f, hbase, hnew, rfl⟩, rfl⟩
      exact ⟨f, hbase, hnew, rfl⟩
    · rintro ⟨f, hbase, hnew, rfl⟩
      exact ⟨_, ⟨f, hbase, hnew, rfl⟩, rfl⟩

end Registry

/-! ## One registration -/

/-- A registration: of a component, of a preset, or of the preset that a manifest declares. -/
inductive Registration (ι κ : Type) where
  | component (kind : ComponentKind) (name : String) (make : Factory (kind.Component ι κ))
  | preset (p : Preset)
  | manifest (tree : Files.Tree) (path : String)

namespace Registration

/-- What a registration makes of a registry. -/
def apply : Registration ι κ → Registry ι κ → Except Failure (Registry ι κ)
  | .component .interceptor name f, r => r.addInterceptor name f
  | .component .hook name f, r => r.addHook name f
  | .preset p, r => p.register r
  | .manifest tree path, r => (Preset.ofFile tree path).bind fun p => p.register r

/-- Whether a registration works, with the registry after it. -/
def register (x : Registration ι κ) (r : Registry ι κ) : Except Failure Unit × Registry ι κ :=
  match x.apply r with
  | .ok r' => (.ok (), r')
  | .error e => (.error e, r)

/-- The preset that a registration declares. -/
def preset? : Registration ι κ → Option Preset
  | .component _ _ _ => none
  | .preset p => some p
  | .manifest tree path => (Preset.ofFile tree path).toOption

/-- What a registration has for a name: a component its own factory, a preset that of its base over
its defaults. -/
inductive Offers (r : Registry ι κ) :
    Registration ι κ → (kind : ComponentKind) → String → Factory (kind.Component ι κ) → Prop
  | component (kind : ComponentKind) (name : String) (f : Factory (kind.Component ι κ)) :
    Offers r (.component kind name f) kind name f
  | preset {x : Registration ι κ} {p : Preset} {f : Factory (p.kind.Component ι κ)}
    (hp : x.preset? = some p) (hbase : r.resolve p.kind p.base = some f) :
    Offers r x p.kind p.name fun given => f (mergeSettings p.defaults given)

variable {x : Registration ι κ} {r r' : Registry ι κ}

/-- A registration that declares a preset registers it. -/
theorem apply_eq_of_preset? {p : Preset} (h : x.preset? = some p) (r : Registry ι κ) :
    x.apply r = p.register r := by
  cases x with
  | component => cases h
  | preset q =>
    obtain rfl : q = p := Option.some.inj h
    rfl
  | manifest tree path =>
    have h : (Preset.ofFile tree path).toOption = some p := h
    rw [apply]
    cases hfile : Preset.ofFile tree path with
    | error e => simp [hfile, Except.toOption] at h
    | ok q =>
      obtain rfl : q = p := by simpa [hfile, Except.toOption] using h
      rfl

/-- A registration that has something for a new name binds it. -/
theorem Offers.apply_eq {kind : ComponentKind} {name : String}
    {f : Factory (kind.Component ι κ)} (h : Offers r x kind name f)
    (hnew : r.resolve kind name = none) : x.apply r = .ok (r.bind kind name f) := by
  cases h with
  | component =>
    cases kind with
    | interceptor => exact Registry.addInterceptor_eq_ok_iff.2 ⟨hnew, rfl⟩
    | hook => exact Registry.addHook_eq_ok_iff.2 ⟨hnew, rfl⟩
  | preset hp hbase =>
    rw [apply_eq_of_preset? hp]
    exact Registry.addPreset_eq_ok_iff.2 ⟨_, hbase, hnew, rfl⟩

/-- A registration that works binds a new name to what it has for it. -/
theorem exists_offers_of_apply (h : x.apply r = .ok r') :
    ∃ kind name f, Offers r x kind name f ∧ r.resolve kind name = none ∧
      r' = r.bind kind name f := by
  cases hx : x.preset? with
  | some p =>
    rw [apply_eq_of_preset? hx] at h
    obtain ⟨f, hbase, hnew, rfl⟩ := Registry.addPreset_eq_ok_iff.1 h
    exact ⟨_, _, _, .preset hx hbase, hnew, rfl⟩
  | none =>
    cases x with
    | component kind name f =>
      cases kind with
      | interceptor => exact ⟨_, _, _, .component .., Registry.addInterceptor_eq_ok_iff.1 h⟩
      | hook => exact ⟨_, _, _, .component .., Registry.addHook_eq_ok_iff.1 h⟩
    | preset p => cases hx
    | manifest tree path =>
      obtain ⟨p, hp, -⟩ := Json.exists_of_bind_eq_ok h
      rw [preset?, hp] at hx
      cases hx

end Registration

/-- What a registration that works changes: a single name, which was not there. -/
structure Gains (r r' : Registry ι κ) (kind : ComponentKind) (name : String)
    (f : Factory (kind.Component ι κ)) : Prop where
  new : r.resolve kind name = none
  bound : r'.resolve kind name = some f
  others : ∀ kind' name', (kind, name) ≠ (kind', name') →
    r'.resolve kind' name' = r.resolve kind' name'

namespace Registration

variable {x : Registration ι κ} {r : Registry ι κ}

/-- A registration either fails and changes nothing or gains a name that it has something for. It
does not fail if the name is new. -/
theorem register_cases (x : Registration ι κ) (r : Registry ι κ) :
    (∃ e, x.register r = (.error e, r) ∧
      ∀ kind name f, Offers r x kind name f → r.resolve kind name ≠ none) ∨
    ∃ kind name f, Offers r x kind name f ∧ (x.register r).1 = .ok () ∧
      Gains r (x.register r).2 kind name f := by
  cases h : x.apply r with
  | error e =>
    refine .inl ⟨e, by rw [register, h], ?_⟩
    intro kind name f hoffers hnew
    have hok := hoffers.apply_eq hnew
    rw [h] at hok
    cases hok
  | ok r' =>
    obtain ⟨kind, name, f, hoffers, hnew, rfl⟩ := exists_offers_of_apply h
    have hregister : x.register r = (.ok (), r.bind kind name f) := by rw [register, h]
    rw [hregister]
    exact .inr ⟨kind, name, f, hoffers, rfl, hnew, r.resolve_bind_self f,
      fun _ _ hne => r.resolve_bind_of_ne f hne⟩

/-- What is registered stays. -/
theorem resolve_register {kind : ComponentKind} {name : String}
    {f : Factory (kind.Component ι κ)} (h : r.resolve kind name = some f) :
    (x.register r).2.resolve kind name = some f := by
  rcases x.register_cases r with ⟨e, hregister, -⟩ | ⟨kind', name', g, -, -, hgains⟩
  · rw [hregister]
    exact h
  · have hne : (kind', name') ≠ (kind, name) := by
      rintro heq
      obtain ⟨rfl, rfl⟩ := Prod.mk.inj heq
      rw [hgains.new] at h
      cases h
    rw [hgains.others kind name hne]
    exact h

/-- A name has a factory after a registration if it had it before or this registration brought
it. -/
theorem resolve_register_iff {kind : ComponentKind} {name : String}
    {f : Factory (kind.Component ι κ)} :
    (x.register r).2.resolve kind name = some f ↔
      r.resolve kind name = some f ∨
        r.resolve kind name = none ∧ (x.register r).1 = .ok () ∧ Offers r x kind name f := by
  constructor
  · intro h
    rcases x.register_cases r with ⟨e, hregister, -⟩ | ⟨kind', name', g, hoffers, hok, hgains⟩
    · rw [hregister] at h
      exact .inl h
    · by_cases heq : (kind', name') = (kind, name)
      · obtain ⟨rfl, rfl⟩ := Prod.mk.inj heq
        obtain rfl : g = f := Option.some.inj (hgains.bound.symm.trans h)
        exact .inr ⟨hgains.new, hok, hoffers⟩
      · rw [hgains.others kind name heq] at h
        exact .inl h
  · rintro (h | ⟨hnew, -, hoffers⟩)
    · exact resolve_register h
    · rw [register, hoffers.apply_eq hnew]
      exact r.resolve_bind_self f

end Registration

/-! ## Registrations one after the other -/

/-- The registry after some registrations, whether they work or not. -/
def registered (xs : List (Registration ι κ)) (r : Registry ι κ) : Registry ι κ :=
  xs.foldl (fun r x => (x.register r).2) r

theorem registered_append (xs ys : List (Registration ι κ)) (r : Registry ι κ) :
    registered (xs ++ ys) r = registered ys (registered xs r) :=
  List.foldl_append

/-- Among some registrations there is a first one of a name, and it has this factory. -/
def BindsFirst (r : Registry ι κ) (xs : List (Registration ι κ)) (kind : ComponentKind)
    (name : String) (f : Factory (kind.Component ι κ)) : Prop :=
  ∃ past x rest, xs = past ++ x :: rest ∧ (registered past r).resolve kind name = none ∧
    (x.register (registered past r)).1 = .ok () ∧
    Registration.Offers (registered past r) x kind name f

section

variable {r : Registry ι κ} {xs : List (Registration ι κ)} {kind : ComponentKind}
  {name : String} {f : Factory (kind.Component ι κ)}

/-- What resolves goes on to. -/
theorem resolve_registered (xs : List (Registration ι κ)) (h : r.resolve kind name = some f) :
    (registered xs r).resolve kind name = some f := by
  induction xs generalizing r with
  | nil => exact h
  | cons x rest ih => exact ih (Registration.resolve_register h)

/-- A name has the factory that it had at first or that of its first registration. -/
theorem resolve_registered_iff :
    (registered xs r).resolve kind name = some f ↔
      r.resolve kind name = some f ∨ BindsFirst r xs kind name f := by
  constructor
  · intro h
    -- the last registration brought the factory, or it was there before
    induction xs using List.reverseRecOn with
    | nil => exact .inl h
    | append_singleton past x ih =>
      rw [registered_append] at h
      rcases Registration.resolve_register_iff.1 h with h | ⟨hnew, hok, hoffers⟩
      · rcases ih h with h | ⟨before, y, rest, rfl, hfirst⟩
        · exact .inl h
        · exact .inr ⟨before, y, rest ++ [x], by simp, hfirst⟩
      · exact .inr ⟨past, x, [], rfl, hnew, hok, hoffers⟩
  · rintro (h | ⟨past, x, rest, rfl, hnew, hok, hoffers⟩)
    · exact resolve_registered xs h
    · rw [registered_append]
      exact resolve_registered rest
        (Registration.resolve_register_iff.2 (.inr ⟨hnew, hok, hoffers⟩))

end

/-! ## Settings over defaults -/

/-- A dictionary with the entries of another over its own. -/
def Dict.overlay {α : Type} (d extra : Dict α) : Dict α :=
  extra.entries.foldl (fun d e => d.insert e.1 e.2) d

/-- What lies on top answers first. -/
theorem Dict.get?_overlay {α : Type} (d extra : Dict α) (key : String) :
    (d.overlay extra).get? key = (extra.get? key).or (d.get? key) :=
  get?_foldl_insert d extra.nodup_keys key

/-- The settings given at a use: those of a dictionary, or `null`. -/
def givenSettings (given : Option (Dict Json)) : Json :=
  .ofOption (fun d => .object d.entries) given

/-- Given settings lie over defaults. -/
theorem mergeSettings_given (defaults : Dict Json) (given : Option (Dict Json)) :
    mergeSettings (.object defaults.entries) (givenSettings given)
      = .object (defaults.overlay (given.getD .empty)).entries := by
  cases given with
  | none => rfl
  | some d => exact congrArg Json.object (Dict.entries_foldl_insert defaults d.entries).symm

/-! ## Presets on top of one another -/

/-- A preset less what it is based on. -/
structure Layer where
  name : String
  defaults : Dict Json

namespace Layer

/-- The presets of some layers, each based on the one before and the first on a component. -/
def presets (kind : ComponentKind) : String → List Layer → List Preset
  | _, [] => []
  | base, l :: rest => ⟨l.name, base, kind, .object l.defaults.entries⟩ :: presets kind l.name rest

/-- The name of the outermost layer. -/
def outermost : String → List Layer → String
  | base, [] => base
  | _, l :: rest => outermost l.name rest

/-- What given settings are after each layer has put them over its defaults, the outermost first. -/
def settle (layers : List Layer) (given : Json) : Json :=
  layers.foldr (fun l above => mergeSettings (.object l.defaults.entries) above) given

/-- The entries of given settings over those of all layers, an outer layer over an inner one. -/
def settled (layers : List Layer) (given : Option (Dict Json)) : Dict Json :=
  layers.foldr (fun l above => l.defaults.overlay above) (given.getD .empty)

/-- At least one layer of defaults with given settings settles to a dictionary. -/
theorem settle_eq {layers : List Layer} (h : layers ≠ []) (given : Option (Dict Json)) :
    settle layers (givenSettings given) = .object (settled layers given).entries := by
  obtain ⟨l, rest, rfl⟩ := List.exists_cons_of_ne_nil h
  induction rest generalizing l with
  | nil => exact mergeSettings_given l.defaults given
  | cons l' rest ih =>
    have habove := ih l' (List.cons_ne_nil l' rest)
    calc settle (l :: l' :: rest) (givenSettings given)
      _ = mergeSettings (.object l.defaults.entries) (settle (l' :: rest) (givenSettings given)) :=
        rfl
      _ = mergeSettings (.object l.defaults.entries)
            (givenSettings (some (settled (l' :: rest) given))) := by rw [habove]; rfl
      _ = .object (settled (l :: l' :: rest) given).entries := mergeSettings_given _ _

/-- A key has the value that is given for it, or else that of the topmost layer that has one. -/
theorem get?_settled (layers : List Layer) (given : Option (Dict Json)) (key : String) :
    (settled layers given).get? key
      = (given.toList ++ (layers.map (·.defaults)).reverse).findSome? (·.get? key) := by
  induction layers with
  | nil => cases given <;> simp [settled]
  | cons l rest ih =>
    calc (settled (l :: rest) given).get? key
      _ = ((settled rest given).get? key).or (l.defaults.get? key) :=
        l.defaults.get?_overlay (settled rest given) key
      _ = ((given.toList ++ (rest.map (·.defaults)).reverse).findSome? (·.get? key)).or
            ([l.defaults].findSome? (·.get? key)) := by rw [ih]; simp
      _ = _ := by rw [← List.findSome?_append]; simp

end Layer

/-- Some registration of a preset works. -/
def Registers (r : Registry ι κ) (xs : List (Registration ι κ)) (p : Preset) : Prop :=
  ∃ past x rest, xs = past ++ x :: rest ∧ x.preset? = some p ∧
    (x.register (registered past r)).1 = .ok ()

variable {r : Registry ι κ} {xs : List (Registration ι κ)}

/-- A preset has the factory that its base has to the end. -/
theorem Registers.exists_resolve {p : Preset} (h : Registers r xs p) :
    ∃ f, (registered xs r).resolve p.kind p.base = some f ∧
      (registered xs r).resolve p.kind p.name
        = some fun given => f (mergeSettings p.defaults given) := by
  obtain ⟨past, x, rest, rfl, hp, hok⟩ := h
  rcases x.register_cases (registered past r) with
    ⟨e, hregister, -⟩ | ⟨kind, name, g, hoffers, -, hgains⟩
  · rw [hregister] at hok
    cases hok
  · cases hoffers with
    | component => cases hp
    | preset hq hbase =>
      obtain rfl := Option.some.inj (hp.symm.trans hq)
      rw [registered_append]
      exact ⟨_, resolve_registered (x :: rest) hbase, resolve_registered rest hgains.bound⟩

/-- The outermost of some presets hands down to the component below all of them. -/
theorem resolve_outermost {kind : ComponentKind} {base : String}
    {f : Factory (kind.Component ι κ)} {layers : List Layer}
    (hbase : (registered xs r).resolve kind base = some f)
    (hpresets : ∀ p ∈ Layer.presets kind base layers, Registers r xs p) :
    (registered xs r).resolve kind (Layer.outermost base layers)
      = some fun given => f (Layer.settle layers given) := by
  induction layers generalizing base f with
  | nil => exact hbase
  | cons l rest ih =>
    obtain ⟨g, hg, hname⟩ := (hpresets _ (List.mem_cons_self ..)).exists_resolve
    obtain rfl : g = f := Option.some.inj (hg.symm.trans hbase)
    exact ih hname fun p hp => hpresets p (List.mem_cons_of_mem _ hp)

/-! ## Discovery -/

section

open Discovery

/-- A registry that some registrations lead to. -/
def Extends (r r' : Registry ι κ) : Prop := ∃ xs, r' = registered xs r

theorem Extends.refl (r : Registry ι κ) : Extends r r := ⟨[], rfl⟩

/-- What extends an extension extends the registry. -/
theorem Extends.trans {r₁ r₂ r₃ : Registry ι κ} (h₁ : Extends r₁ r₂) (h₂ : Extends r₂ r₃) :
    Extends r₁ r₃ := by
  obtain ⟨xs, rfl⟩ := h₁
  obtain ⟨ys, rfl⟩ := h₂
  exact ⟨xs ++ ys, (registered_append xs ys r₁).symm⟩

/-- A registration that works extends the registry. -/
theorem extends_of_apply {x : Registration ι κ} {r r' : Registry ι κ} (h : x.apply r = .ok r') :
    Extends r r' := by
  refine ⟨[x], ?_⟩
  have hregister : x.register r = (.ok (), r') := by rw [Registration.register, h]
  exact (congrArg Prod.snd hregister).symm

theorem extends_registerAll (presets : List Preset) (r : Registry ι κ) :
    Extends r (registerAll presets r).2 := by
  induction presets generalizing r with
  | nil => exact .refl r
  | cons p rest ih =>
    rw [registerAll]
    split
    · rename_i r' hok
      exact (extends_of_apply (x := .preset p) hok).trans (ih r')
    · exact .refl r

theorem extends_loadModules (catalog : Catalog) (modules : List String) (r : Registry ι κ) :
    Extends r (loadModules catalog modules r).2 := by
  induction modules generalizing r with
  | nil => exact .refl r
  | cons m rest ih =>
    rw [loadModules]
    split
    · exact .refl r
    · rename_i presets _
      have hpresets := extends_registerAll presets r
      split
      · rename_i r' hloaded
        rw [hloaded] at hpresets
        exact hpresets.trans (ih r')
      · exact hpresets

theorem extends_loadManifests (t : Files.Tree) (paths : List String) (r : Registry ι κ) :
    Extends r (loadManifests t paths r).2 := by
  induction paths generalizing r with
  | nil => exact .refl r
  | cons path rest ih =>
    rw [loadManifests]
    split
    · rename_i r' hok
      exact (extends_of_apply (x := .manifest t path) hok).trans (ih r')
    · exact .refl r

theorem extends_loadDirectories (t : Files.Tree) (directories : List String) (r : Registry ι κ) :
    Extends r (loadDirectories t directories r).2 := by
  induction directories generalizing r with
  | nil => exact .refl r
  | cons directory rest ih =>
    rw [loadDirectories]
    split
    · exact .refl r
    · rename_i paths _
      have hpaths := extends_loadManifests t paths r
      split
      · rename_i r' hloaded
        rw [hloaded] at hpaths
        exact hpaths.trans (ih r')
      · exact hpaths

/-- Discovery does nothing to a registry but register, so all that holds of registrations holds of
it. -/
theorem extends_discover (catalog : Catalog) (c : DiscoveryConfig) (t : Files.Tree)
    (r : Registry ι κ) : Extends r (discover catalog c t r).2 := by
  rw [discover]
  have hmodules := extends_loadModules catalog c.modules r
  split
  · rename_i r' hloaded
    rw [hloaded] at hmodules
    exact hmodules.trans (extends_loadDirectories t c.directories r')
  · exact hmodules

end

/-! ## Names and presets in any run -/

/-- Whatever is registered in whatever order: a registration either fails and changes nothing or
gains one new name; what resolves at some time resolves to the same for ever; a name has the factory
of its first registration that works; discovery does nothing but register; what manifests declare
are presets whose defaults are objects; and a preset on top of others builds the component at their
base from the given settings over its own defaults, and these over those below. -/
theorem keeps_names_and_layers_presets (r : Registry ι κ) (xs : List (Registration ι κ)) :
    (∀ past x rest, xs = past ++ x :: rest →
      (∃ e, x.register (registered past r) = (.error e, registered past r) ∧
        ∀ kind name f, Registration.Offers (registered past r) x kind name f →
          (registered past r).resolve kind name ≠ none) ∨
      ∃ kind name f, Registration.Offers (registered past r) x kind name f ∧
        (x.register (registered past r)).1 = .ok () ∧
        Gains (registered past r) (x.register (registered past r)).2 kind name f) ∧
    (∀ past rest, xs = past ++ rest → ∀ kind name f,
      (registered past r).resolve kind name = some f →
        (registered xs r).resolve kind name = some f) ∧
    (∀ kind name f, (registered xs r).resolve kind name = some f ↔
      r.resolve kind name = some f ∨ BindsFirst r xs kind name f) ∧
    (∀ catalog c tree, Extends r (discover catalog c tree r).2) ∧
    (∀ tree path p, .manifest tree path ∈ xs → Preset.ofFile tree path = .ok p →
      ∃ d : Dict Json, p.defaults = .object d.entries) ∧
    ∀ kind base f layers, layers ≠ [] → (registered xs r).resolve kind base = some f →
      (∀ p ∈ Layer.presets kind base layers, Registers r xs p) → ∀ given : Option (Dict Json),
        ∃ settings : Dict Json,
          (∀ directory w,
            (registered xs r).make kind (Layer.outermost base layers) (givenSettings given)
              directory w = f (.object settings.entries) directory w) ∧
          ∀ key, settings.get? key
            = (given.toList ++ (layers.map (·.defaults)).reverse).findSome? (·.get? key) := by
  refine ⟨?_, ?_, fun kind name f => resolve_registered_iff,
    fun catalog c tree => extends_discover catalog c tree r, ?_, ?_⟩
  · rintro past x rest -
    exact x.register_cases (registered past r)
  · rintro past rest rfl kind name f h
    rw [registered_append]
    exact resolve_registered rest h
  · rintro tree path p - h
    exact Preset.exists_dict_of_ofFile h
  · intro kind base f layers hne hbase hpresets given
    refine ⟨Layer.settled layers given, ?_, Layer.get?_settled layers given⟩
    intro directory w
    rw [Registry.make_eq (resolve_outermost hbase hpresets), Layer.settle_eq hne]

/-- A component that is nothing but its settings. -/
def echo : Factory Json := fun settings _ w => (.ok settings, w)

/-- Two presets on top of each other, and an attempt to take the name of their base. -/
def echoes : List (Registration Json Json) :=
  [.component .interceptor "echo" echo,
   .preset ⟨"calm", "echo", .interceptor, .object [("tone", .text "soft"), ("volume", .int 1)]⟩,
   .preset ⟨"echo", "calm", .interceptor, .object [("tone", .text "shrill")]⟩,
   .component .hook "echo" echo,
   .preset ⟨"loud", "calm", .interceptor, .object [("volume", .int 9)]⟩]

/-- A name stays with the component that took it first, and two presets are layered over it: a given
null hides what they say, and what is not given is theirs. -/
theorem keeps_names_and_layers_presets_echoes :
    (registered echoes .empty).resolve .interceptor "echo" = some echo ∧
    ∃ settings : Dict Json,
      (∀ directory w,
        (registered echoes .empty).make .interceptor "loud" (.object [("tone", .null)]) directory w
          = (.ok (.object settings.entries), w)) ∧
      settings.get? "tone" = some .null ∧ settings.get? "volume" = some (.int 9) ∧
      settings.get? "pitch" = none := by
  obtain ⟨-, hstays, -, -, -, hlayers⟩ := keeps_names_and_layers_presets .empty echoes
  have hecho : (registered echoes .empty).resolve .interceptor "echo" = some echo :=
    hstays [_] _ rfl .interceptor "echo" echo rfl
  let calm : Dict Json := .ofList [("tone", .text "soft"), ("volume", .int 1)]
  let loud : Dict Json := .ofList [("volume", .int 9)]
  have hpresets : ∀ p ∈ Layer.presets .interceptor "echo" [⟨"calm", calm⟩, ⟨"loud", loud⟩],
      Registers .empty echoes p := by
    intro p hp
    rcases List.mem_cons.1 hp with rfl | hp
    · exact ⟨[_], _, [_, _, _], rfl, rfl, rfl⟩
    · obtain rfl := List.mem_singleton.1 hp
      exact ⟨[_, _, _, _], _, [], rfl, rfl, rfl⟩
  obtain ⟨settings, hmake, hget⟩ := hlayers .interceptor "echo" echo _ (List.cons_ne_nil _ _) hecho
    hpresets (some (.ofList [("tone", .null)]))
  refine ⟨hecho, settings, hmake, ?_, ?_, ?_⟩
  · rw [hget]
    rfl
  · rw [hget]
    rfl
  · rw [hget]
    rfl

end EvalProxy
