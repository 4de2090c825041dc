import Mathlib.Data.List.Induction
import Stepflow.Service.Basic

/-!
# Stepflow.Proofs.Bindings — the last accepted binding of a step type is the one in force

* `Registry.Act`: something is offered for a step type, or its binding is dropped; `Registry.after`: the registry
  after a list of acts; `Registry.snapshots`: the registries that were in force on the way.
* `Registry.Binds`: what a list of acts binds, told by the acts alone: the last accepted offer that no removal
  follows, or what was bound before if no act touches the step type.
* `find?_after_iff`: the registry after a list of acts has just these bindings.
* `bindings_in_force`: every way of asking a registry agrees with them; an act leaves other step types, and what is
  refused leaves everything; a snapshot stays what it was; and a launched service has, for every step type, the
  further resolver, or else the one of the analytics events, or else the one of the server interactions, or else
  what the given registry had.
-/

namespace Stepflow

variable {α : Type}

/-- What is offered, if it is a resolver. -/
def Offer.resolver? : Offer α → Option α
  | .resolver a => some a
  | .other _ => none

namespace Registry

/-! ## Acts on a registry -/

section Acts

/-- What is done to a registry: something is offered for a step type, or the binding of a step type is dropped. -/
inductive Act (α : Type) where
  | register (stepType : String) (offered : Offer α)
  | unregister (stepType : String)

/-- The step type that an act is about. -/
def Act.stepType : Act α → String
  | .register stepType _ | .unregister stepType => stepType

/-- An act that settles what a step type is bound to: an offer that is accepted, or a removal. -/
inductive Act.Rebinds (stepType : String) : Act α → Prop where
  | register (a : α) : Rebinds stepType (.register stepType (.resolver a))
  | unregister : Rebinds stepType (.unregister stepType)

theorem Act.Rebinds.stepType_eq {x : Act α} {k : String} (h : x.Rebinds k) : x.stepType = k := by
  cases h <;> rfl

theorem Act.not_rebinds_other (stepType typeName k : String) :
    ¬ (Act.register stepType (.other typeName) : Act α).Rebinds k := nofun

/-- The registry after an act, with the failure told if the act is refused. -/
def act (r : Registry α) : Act α → Registry α × Option Failure
  | .register stepType offered =>
    match r.offer stepType offered with
    | .ok (next, _) => (next, none)
    | .error f => (r, some f)
  | .unregister stepType => (r.unregister stepType, none)

/-- The registry after a list of acts. -/
def after (r : Registry α) (acts : List (Act α)) : Registry α := acts.foldl (fun s x => (s.act x).1) r

/-- The registries in force before, between and after the acts of a list. -/
def snapshots (r : Registry α) : List (Act α) → List (Registry α)
  | [] => [r]
  | x :: rest => r :: (r.act x).1.snapshots rest

/-- A list of acts on a registry binds a step type to a resolver: it was offered, and since then nothing was accepted
for the step type and it was not dropped; or no act settled the step type, and the registry had the binding. -/
def Binds (r : Registry α) (acts : List (Act α)) (stepType : String) (a : α) : Prop :=
  (∃ before later, acts = before ++ .register stepType (.resolver a) :: later ∧ ∀ x ∈ later, ¬ x.Rebinds stepType) ∨
    (∀ x ∈ acts, ¬ x.Rebinds stepType) ∧ r.find? stepType = some a

end Acts

/-! ## One act -/

theorem find?_register (r : Registry α) (stepType k : String) (a : α) :
    (r.register stepType a).find? k = if k = stepType then some a else r.find? k :=
  r.bindings.get?_insert stepType k a

theorem find?_unregister (r : Registry α) (stepType k : String) :
    (r.unregister stepType).find? k = if k = stepType then none else r.find? k :=
  r.bindings.get?_erase stepType k

/-- An act that is refused is the offer of something that is no resolver, and it changes nothing. -/
theorem act_refused_iff (r : Registry α) (x : Act α) (f : Failure) :
    (r.act x).2 = some f ↔ ∃ stepType typeName, x = .register stepType (.other typeName) ∧ f = .notResolver typeName := by
  cases x with
  | unregister stepType => simp [act]
  | register stepType offered => cases offered with
    | resolver a => simp [act, offer]
    | other typeName => simp [act, offer, eq_comm]

theorem act_of_refused {r : Registry α} {x : Act α} {f : Failure} (h : (r.act x).2 = some f) : (r.act x).1 = r := by
  obtain ⟨stepType, typeName, rfl, -⟩ := (act_refused_iff r x f).mp h
  rfl

theorem find?_act_of_ne (r : Registry α) {x : Act α} {k : String} (h : x.stepType ≠ k) :
    (r.act x).1.find? k = r.find? k := by
  cases x with
  | unregister stepType => exact (find?_unregister r stepType k).trans (if_neg (Ne.symm h))
  | register stepType offered => cases offered with
    | resolver a => exact (find?_register r stepType k a).trans (if_neg (Ne.symm h))
    | other typeName => rfl

/-- A binding after an act is the one just accepted, or one that was there and that the act does not settle. -/
theorem find?_act_iff (r : Registry α) (x : Act α) (k : String) (a : α) :
    (r.act x).1.find? k = some a ↔
      x = .register k (.resolver a) ∨ ¬ x.Rebinds k ∧ r.find? k = some a := by
  by_cases here : x.stepType = k
  · subst here
    cases x with
    | unregister stepType =>
      have settled : (Act.unregister stepType : Act α).Rebinds stepType := .unregister
      change (r.unregister stepType).find? stepType = some a ↔ _
      simp [find?_unregister, Act.stepType, settled]
    | register stepType offered => cases offered with
      | resolver b =>
        have settled : (Act.register stepType (.resolver b)).Rebinds stepType := .register b
        change (r.register stepType b).find? stepType = some a ↔ _
        simp [find?_register, Act.stepType, settled]
      | other typeName =>
        change r.find? stepType = some a ↔ _
        simp [Act.stepType, Act.not_rebinds_other]
  · have elsewhere : ¬ x.Rebinds k := fun settled => here settled.stepType_eq
    have ne : x ≠ .register k (.resolver a) := by
      rintro rfl
      exact here rfl
    rw [find?_act_of_ne r here]
    simp [elsewhere, ne]

/-! ## Lists of acts -/

@[simp] theorem after_nil (r : Registry α) : r.after [] = r := rfl

theorem after_concat (r : Registry α) (acts : List (Act α)) (x : Act α) :
    r.after (acts ++ [x]) = ((r.after acts).act x).1 := by
  simp [after, List.foldl_append]

theorem after_append (r : Registry α) (before later : List (Act α)) :
    r.after (before ++ later) = (r.after before).after later :=
  List.foldl_append

theorem binds_nil_iff (r : Registry α) (k : String) (a : α) : r.Binds [] k a ↔ r.find? k = some a := by
  simp [Binds]

/-- What is bound after one more act: the offer just accepted, or what was bound before if the act does not settle
the step type. -/
theorem binds_concat_iff (r : Registry α) (acts : List (Act α)) (x : Act α) (k : String) (a : α) :
    r.Binds (acts ++ [x]) k a ↔
      x = .register k (.resolver a) ∨ ¬ x.Rebinds k ∧ r.Binds acts k a := by
  constructor
  · rintro (⟨before, later, eq, free⟩ | ⟨free, bound⟩)
    · rcases List.eq_nil_or_concat later with rfl | ⟨rest, y, rfl⟩
      · exact .inl (List.cons_eq_cons.mp (List.append_inj' eq rfl).2).1
      · have split : acts ++ [x] = (before ++ .register k (.resolver a) :: rest) ++ [y] := by
          rw [eq]
          simp
        obtain ⟨rfl, last⟩ := List.append_inj' split rfl
        obtain rfl : x = y := (List.cons_eq_cons.mp last).1
        exact .inr ⟨free x (by simp), .inl ⟨before, rest, rfl, fun z mem => free z (by simp [mem])⟩⟩
    · exact .inr ⟨free x (by simp), .inr ⟨fun z mem => free z (by simp [mem]), bound⟩⟩
  · rintro (rfl | ⟨free, ⟨before, later, rfl, frees⟩ | ⟨frees, bound⟩⟩)
    · exact .inl ⟨acts, [], rfl, nofun⟩
    · refine .inl ⟨before, later ++ [x], by simp, fun z mem => ?_⟩
      rcases List.mem_append.mp mem with old | new
      · exact frees z old
      · exact (List.mem_singleton.mp new) ▸ free
    · refine .inr ⟨fun z mem => ?_, bound⟩
      rcases List.mem_append.mp mem with old | new
      · exact frees z old
      · exact (List.mem_singleton.mp new) ▸ free

/-- The registry after a list of acts has the bindings that the acts make. -/
theorem find?_after_iff (r : Registry α) (acts : List (Act α)) (k : String) (a : α) :
    (r.after acts).find? k = some a ↔ r.Binds acts k a := by
  induction acts using List.reverseRecOn generalizing a with
  | nil => rw [after_nil, binds_nil_iff]
  | append_singleton acts x ih => rw [after_concat, find?_act_iff, binds_concat_iff, ih]

/-- A snapshot is what the acts before it made, whatever comes after. -/
theorem snapshots_getElem? (r : Registry α) (before later : List (Act α)) :
    (r.snapshots (before ++ later))[before.length]? = some (r.after before) := by
  induction before generalizing r with
  | nil => cases later <;> rfl
  | cons x rest ih => exact ih (r.act x).1

/-! ## Asking a registry -/

/-- A registry shows certain bindings, whichever way it is asked, and lists the step types that have one in the order
of their code points, each once. -/
structure Shows (r : Registry α) (bound : String → α → Prop) : Prop where
  found : ∀ k a, r.lookup k = .ok a ↔ bound k a
  missing : ∀ k f, r.lookup k = .error f ↔ f = .unknownStepType k ∧ ∀ a, ¬ bound k a
  has : ∀ k, r.has k = true ↔ ∃ a, bound k a
  listed : ∀ k, k ∈ r.stepTypes ↔ ∃ a, bound k a
  ordered : r.stepTypes.Pairwise (· < ·)

theorem has_iff (r : Registry α) (k : String) : r.has k = true ↔ ∃ a, r.find? k = some a :=
  Option.isSome_iff_exists

theorem mem_stepTypes_iff (r : Registry α) (k : String) : k ∈ r.stepTypes ↔ ∃ a, r.find? k = some a := by
  rw [stepTypes, (List.mergeSort_perm r.bindings.keys _).mem_iff, ← has_iff]
  exact (r.bindings.contains_iff k).symm

theorem stepTypes_pairwise (r : Registry α) : r.stepTypes.Pairwise (· < ·) := by
  have ordered := @List.pairwise_mergeSort _ (fun a b : String => decide (a ≤ b))
    (fun _ _ _ ab bc => decide_eq_true (String.le_trans (of_decide_eq_true ab) (of_decide_eq_true bc)))
    (fun a b => by simpa using String.le_total a b) r.bindings.keys
  have distinct : r.stepTypes.Nodup := (List.mergeSort_perm r.bindings.keys _).nodup_iff.mpr r.bindings.nodup_keys
  refine (List.pairwise_and_iff.mpr ⟨ordered, distinct⟩).imp fun {a b} h => ?_
  exact Decidable.byContradiction fun above => h.2 (String.le_antisymm (of_decide_eq_true h.1) (String.not_lt.mp above))

/-- What is found under each step type settles every answer. -/
theorem shows_of_find? {r : Registry α} {bound : String → α → Prop} (h : ∀ k a, r.find? k = some a ↔ bound k a) :
    r.Shows bound where
  found k a := by
    rw [← h, lookup]
    cases r.find? k <;> simp
  missing k f := by
    simp only [← h, lookup]
    cases r.find? k <;> simp [eq_comm]
  has k := (r.has_iff k).trans (exists_congr (h k))
  listed k := (r.mem_stepTypes_iff k).trans (exists_congr (h k))
  ordered := r.stepTypes_pairwise

/-! ## Offers one after another -/

/-- The act of offering an entry. -/
def Act.ofOffer (e : String × Offer α) : Act α := .register e.1 e.2

/-- Offers made one after another are acts up to the first that is refused. -/
theorem offerAll_eq (r : Registry α) (offers : List (String × Offer α)) :
    ∃ made left, offers = made ++ left ∧ (r.offerAll offers).1 = r.after (made.map Act.ofOffer) ∧
      (∀ e ∈ made, ∃ a, e.2 = .resolver a) ∧ ((r.offerAll offers).2.2 = none → left = []) ∧
      ∀ f, (r.offerAll offers).2.2 = some f →
        ∃ stepType typeName rest, left = (stepType, .other typeName) :: rest ∧ f = .notResolver typeName := by
  -- the registry goes along: each resolver is registered before the next offer is looked at
  induction offers generalizing r with
  | nil => exact ⟨[], [], rfl, rfl, nofun, fun _ => rfl, nofun⟩
  | cons e rest ih =>
    obtain ⟨stepType, offered⟩ := e
    cases offered with
    | other typeName =>
      refine ⟨[], (stepType, .other typeName) :: rest, rfl, rfl, nofun, nofun, fun f told => ?_⟩
      exact ⟨stepType, typeName, rest, rfl, (Option.some.inj told).symm⟩
    | resolver a =>
      obtain ⟨made, left, rfl, eq, accepted, all, refused⟩ := ih (r.register stepType a)
      refine ⟨(stepType, .resolver a) :: made, left, rfl, eq, fun e mem => ?_, all, refused⟩
      rcases List.mem_cons.mp mem with rfl | later
      · exact ⟨a, rfl⟩
      · exact accepted e later

/-- Offers are all accepted if and only if all are resolvers. -/
theorem offerAll_accepted_iff (r : Registry α) (offers : List (String × Offer α)) :
    (r.offerAll offers).2.2 = none ↔ ∀ e ∈ offers, ∃ a, e.2 = .resolver a := by
  obtain ⟨made, left, rfl, -, accepted, all, refused⟩ := offerAll_eq r offers
  constructor
  · intro none_refused
    obtain rfl := all none_refused
    simpa using accepted
  · intro resolvers
    cases told : (r.offerAll (made ++ left)).2.2 with
    | none => rfl
    | some f =>
      obtain ⟨stepType, typeName, rest, rfl, -⟩ := refused f told
      obtain ⟨a, eq⟩ := resolvers (stepType, .other typeName) (by simp)
      cases eq

/-- After offers of resolvers a step type is bound to the last that was offered for it, or as it was before. -/
theorem find?_after_offers (r : Registry α) {offers : List (String × Offer α)}
    (resolvers : ∀ e ∈ offers, ∃ a, e.2 = .resolver a) (k : String) :
    (r.after (offers.map Act.ofOffer)).find? k =
      ((offers.reverse.lookup k).bind Offer.resolver?).or (r.find? k) := by
  -- from the last offer backwards, since that is the one that counts
  induction offers using List.reverseRecOn with
  | nil => rfl
  | append_singleton offers e ih =>
    obtain ⟨stepType, offered⟩ := e
    obtain ⟨a, rfl⟩ := resolvers (stepType, offered) (by simp)
    have before := ih fun e mem => resolvers e (by simp [mem])
    rw [List.map_append, List.map_singleton, after_concat]
    change ((r.after (offers.map Act.ofOffer)).register stepType a).find? k = _
    rw [find?_register, before, List.reverse_append, List.reverse_singleton, List.singleton_append, List.lookup_cons]
    by_cases here : k = stepType
    · simp [here, Offer.resolver?]
    · have ne : (k == stepType) = false := beq_eq_false_iff_ne.mpr here
      rw [if_neg here, ne]

end Registry

namespace Service

open Registry

/-! ## A launched service -/

/-- What a setup binds a step type to: the last of the further resolvers offered for it, else the one of the analytics
events if it is set up under this step type, else the one of the server interactions, else what the registry had. -/
def Setup.binding? (s : Setup) (stepType : String) : Option Handler :=
  ((s.further.reverse.lookup stepType).bind Offer.resolver?).or
    ((if stepType = s.analyticsType then s.analytics else none).or
      ((if stepType = s.interactionType then s.interactions else none).or (s.registry.find? stepType)))

/-- One resolver that may be there is offered under its step type. -/
theorem find?_after_offered (r : Registry Handler) (stepType k : String) (handler : Option Handler) :
    (r.after ((handler.map fun h => (stepType, Offer.resolver h)).toList.map Act.ofOffer)).find? k =
      (if k = stepType then handler else none).or (r.find? k) := by
  cases handler with
  | none => simp
  | some h =>
    change (r.register stepType h).find? k = _
    rw [find?_register]
    split <;> rfl

theorem offers_accepted_iff (s : Setup) :
    (s.registry.offerAll s.offers).2.2 = none ↔ ∀ e ∈ s.further, ∃ h, e.2 = .resolver h := by
  rw [offerAll_accepted_iff]
  refine ⟨fun all e mem => all e (by simp [Setup.offers, mem]), fun all e mem => ?_⟩
  simp only [Setup.offers, List.mem_append, Option.mem_toList, Option.map_eq_some_iff] at mem
  rcases mem with (⟨h, -, rfl⟩ | ⟨h, -, rfl⟩) | further
  · exact ⟨h, rfl⟩
  · exact ⟨h, rfl⟩
  · exact all e further

/-- A service that was launched has the registry that its offers make. -/
theorem registry_of_launch {s : Setup} {service : Service} (h : launch s = .ok service) :
    (∀ e ∈ s.further, ∃ h, e.2 = .resolver h) ∧
      service.engine.registry = s.registry.after (s.offers.map Act.ofOffer) := by
  obtain ⟨made, left, split, eq, -, all, -⟩ := offerAll_eq s.registry s.offers
  rw [← offers_accepted_iff]
  unfold launch at h
  rcases offered : s.registry.offerAll s.offers with ⟨registry, log, _ | f⟩
  · rw [offered] at h eq all
    obtain rfl := all rfl
    rw [List.append_nil] at split
    obtain rfl := Except.ok.inj h
    exact ⟨rfl, by rw [split]; exact eq⟩
  · rw [offered] at h
    cases h

/-- A launched service has the bindings of its setup. -/
theorem find?_of_launch {s : Setup} {service : Service} (h : launch s = .ok service) (k : String) :
    service.engine.registry.find? k = s.binding? k := by
  obtain ⟨resolvers, eq⟩ := registry_of_launch h
  rw [eq, Setup.offers, List.map_append, List.map_append, after_append, after_append, find?_after_offers _ resolvers,
    find?_after_offered, find?_after_offered]
  rfl

theorem launch_ok_iff (s : Setup) :
    (∃ service, launch s = .ok service) ↔ ∀ e ∈ s.further, ∃ h, e.2 = .resolver h := by
  refine ⟨fun ⟨service, h⟩ => (registry_of_launch h).1, fun resolvers => ?_⟩
  have accepted := (offers_accepted_iff s).mpr resolvers
  unfold launch
  rcases offered : s.registry.offerAll s.offers with ⟨registry, log, _ | f⟩
  · exact ⟨_, rfl⟩
  · rw [offered] at accepted
    cases accepted

end Service

/-! ## Bindings in force -/

/-- After any acts on a registry, accepted or refused, it shows the bindings that the acts make: each step type has
the last accepted resolver that was not dropped since.  A further act leaves every other step type as it is, and
what is refused changes nothing.  A snapshot is what the acts before it made.  A setup is launched if its further
resolvers are resolvers; the service then shows the bindings of the setup. -/
theorem bindings_in_force (r : Registry α) (acts : List (Registry.Act α)) :
    (r.after acts).Shows (r.Binds acts) ∧
      (∀ x k, x.stepType ≠ k → ((r.after acts).act x).1.lookup k = (r.after acts).lookup k ∧
        ((r.after acts).act x).1.has k = (r.after acts).has k ∧
        (k ∈ ((r.after acts).act x).1.stepTypes ↔ k ∈ (r.after acts).stepTypes)) ∧
      (∀ x f, ((r.after acts).act x).2 = some f ↔
        ∃ stepType typeName, x = .register stepType (.other typeName) ∧ f = .notResolver typeName) ∧
      (∀ x f, ((r.after acts).act x).2 = some f → ((r.after acts).act x).1 = r.after acts) ∧
      (∀ before later, acts = before ++ later → (r.snapshots acts)[before.length]? = some (r.after before)) ∧
      (∀ offers : List (String × Offer α), ∃ made left, offers = made ++ left ∧
        (r.offerAll offers).1 = r.after (made.map Registry.Act.ofOffer) ∧
        ((r.offerAll offers).2.2 = none ↔ ∀ e ∈ offers, ∃ a, e.2 = .resolver a) ∧
        ((r.offerAll offers).2.2 = none → left = []) ∧
        ∀ f, (r.offerAll offers).2.2 = some f →
          ∃ stepType typeName rest, left = (stepType, .other typeName) :: rest ∧ f = .notResolver typeName) ∧
      ∀ setup : Service.Setup,
        ((∃ service, Service.launch setup = .ok service) ↔ ∀ e ∈ setup.further, ∃ h, e.2 = .resolver h) ∧
        ∀ service, Service.launch setup = .ok service →
          service.engine.registry = setup.registry.after (setup.offers.map Registry.Act.ofOffer) ∧
          service.engine.registry.Shows fun k h => setup.binding? k = some h := by
  refine ⟨Registry.shows_of_find? (r.find?_after_iff acts), fun x k ne => ?_, Registry.act_refused_iff _,
    fun x f => Registry.act_of_refused, ?_, fun offers => ?_, fun setup => ⟨Service.launch_ok_iff setup, ?_⟩⟩
  · have same := (r.after acts).find?_act_of_ne ne
    have has : ((r.after acts).act x).1.has k = (r.after acts).has k := by
      rw [Bool.eq_iff_iff, Registry.has_iff, Registry.has_iff, same]
    refine ⟨by rw [Registry.lookup, same, Registry.lookup], has, ?_⟩
    rw [Registry.mem_stepTypes_iff, Registry.mem_stepTypes_iff, same]
  · rintro before later rfl
    exact r.snapshots_getElem? before later
  · obtain ⟨made, left, split, eq, -, all, refused⟩ := r.offerAll_eq offers
    exact ⟨made, left, split, eq, r.offerAll_accepted_iff offers, all, refused⟩
  · intro service launched
    refine ⟨(Service.registry_of_launch launched).2, Registry.shows_of_find? fun k h => ?_⟩
    rw [Service.find?_of_launch launched]

/-- Acts of which one is refused and one takes back a binding. -/
def crowdedActs : List (Registry.Act Handler) :=
  [.register "log" (.resolver ⟨0, .base⟩), .register "track" (.resolver ⟨1, .base⟩), .unregister "log",
    .register "track" (.other "Widget")]

/-- A setup that offers three resolvers for one step type which the registry made beforehand binds already. -/
def crowdedSetup : Service.Setup where
  registry := Registry.empty.after crowdedActs
  interactions := some ⟨2, .base⟩
  analytics := some ⟨3, .base⟩
  further := [("Track", .resolver ⟨4, .base⟩)]
  interactionType := "track"
  analyticsType := "track"

theorem crowdedSetup_bindings :
    (Registry.empty.after crowdedActs).lookup "track" = .ok ⟨1, .base⟩ ∧
      (Registry.empty.after crowdedActs).lookup "log" = .error (.unknownStepType "log") ∧
      ∃ service, Service.launch crowdedSetup = .ok service ∧
        service.engine.registry.lookup "track" = .ok ⟨3, .base⟩ ∧
        service.engine.registry.lookup "Track" = .ok ⟨4, .base⟩ := by
  obtain ⟨shows, -, -, -, -, -, launches⟩ := bindings_in_force Registry.empty crowdedActs
  obtain ⟨launched, bound⟩ := launches crowdedSetup
  have elsewhere : ¬ (Registry.Act.unregister "log" : Registry.Act Handler).Rebinds "track" :=
    fun settled => absurd settled.stepType_eq (by decide)
  refine ⟨(shows.found _ _).mpr (.inl ⟨[.register "log" (.resolver ⟨0, .base⟩)], _, rfl, ?_⟩), rfl, ?_⟩
  · simp [elsewhere, Registry.Act.not_rebinds_other]
  · obtain ⟨service, ok⟩ := launched.mpr (by simp [crowdedSetup])
    obtain ⟨-, showing⟩ := bound service ok
    exact ⟨service, ok, (showing.found _ _).mpr rfl, (showing.found _ _).mpr rfl⟩

end Stepflow
