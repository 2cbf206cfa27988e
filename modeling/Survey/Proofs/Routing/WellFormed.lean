/-
# What a routing never lacks

An attribute with an empty value counts as missing, so routes have paths, form beans have names and
types, and forwards have names and targets.  A name stands once among the forwards of a route, and
once among those that all routes share.
-/
import Survey.Proofs.Registry
import Survey.Routing.Parse

namespace Survey

open Survey.Markup

/-! ### Forwards -/

/-- Forwards have each name once, and no empty name or target. -/
structure Filled (forwards : Forwards) : Prop where
  nodup_keys : forwards.keys.Nodup
  pair_ne : ∀ name target, (name, target) ∈ forwards.toList → name ≠ "" ∧ target ≠ ""

lemma filled_empty : Filled ∅ := ⟨List.nodup_nil, fun _ _ h => absurd h List.not_mem_nil⟩

lemma Filled.insertMany {forwards : Forwards} (h : Filled forwards) {pairs : List (String × String)}
    (hpairs : ∀ pair ∈ pairs, pair.1 ≠ "" ∧ pair.2 ≠ "") : Filled (forwards.insertMany pairs) where
  nodup_keys := Registry.nodup_keys_insertMany h.nodup_keys pairs
  pair_ne name target hmem :=
    (Registry.mem_of_mem_insertMany hmem).elim (h.pair_ne name target) (hpairs (name, target))

/-- Merging filled forwards one after the other keeps them filled. -/
lemma Filled.foldl_insertMany {α : Type} {f : α → Forwards} {forwards : Forwards}
    (h : Filled forwards) {list : List α} (hlist : ∀ a ∈ list, Filled (f a)) :
    Filled (list.foldl (fun r a => r.insertMany (f a).toList) forwards) := by
  induction list generalizing forwards with
  | nil => exact h
  | cons a list ih =>
    refine ih (h.insertMany fun pair hpair => ?_) fun b hb => hlist b (List.mem_cons_of_mem _ hb)
    exact (hlist a List.mem_cons_self).pair_ne pair.1 pair.2 hpair

lemma ne_empty_of_filledAttribute? {name value : String} {node : Node}
    (h : filledAttribute? name node = some value) : value ≠ "" := by
  obtain ⟨-, hvalue⟩ := Option.filter_eq_some_iff.1 h
  simpa using hvalue

lemma filled_forwardPairs (node : Node) : Filled (.ofPairs (forwardPairs node)) := by
  refine filled_empty.insertMany fun pair hpair => ?_
  obtain ⟨forward, -, hforward⟩ := List.mem_filterMap.1 hpair
  rw [forwardPair?] at hforward
  split at hforward
  · next name path hname hpath =>
    obtain rfl := Option.some.inj hforward
    exact ⟨ne_empty_of_filledAttribute? hname, ne_empty_of_filledAttribute? hpath⟩
  · simp at hforward

/-! ### Documents -/

/-- A route has a path and filled forwards. -/
structure Route.WellFormed (route : Route) : Prop where
  path_ne : route.path ≠ ""
  forwards : Filled route.forwards

/-- A form bean has a name and a type. -/
structure FormBean.WellFormed (bean : FormBean) : Prop where
  name_ne : bean.name ≠ ""
  typeName_ne : bean.typeName ≠ ""

namespace Routing

/-- The routes, the form beans and the shared forwards of a routing are well-formed. -/
structure WellFormed (routing : Routing) : Prop where
  routes : ∀ route ∈ routing.routes, route.WellFormed
  formBeans : ∀ bean ∈ routing.formBeans, bean.WellFormed
  globalForwards : Filled routing.globalForwards

lemma wellFormed_ofDocument (document : Document) : (ofDocument document).WellFormed := by
  constructor
  case routes =>
    intro route hroute
    obtain ⟨node, -, hnode⟩ := List.mem_filterMap.1 hroute
    obtain ⟨path, hpath, rfl⟩ := Option.map_eq_some_iff.1 hnode
    exact ⟨ne_empty_of_filledAttribute? hpath, filled_forwardPairs node⟩
  case formBeans =>
    intro bean hbean
    obtain ⟨node, -, hnode⟩ := List.mem_filterMap.1 hbean
    rw [FormBean.ofNode?] at hnode
    split at hnode
    · next name typeName hname htype =>
      rw [← Option.some.inj hnode]
      exact ⟨ne_empty_of_filledAttribute? hname, ne_empty_of_filledAttribute? htype⟩
    · simp at hnode
  case globalForwards => exact filled_empty.foldl_insertMany fun node _ => filled_forwardPairs node

/-- Every document that parses declares a well-formed routing. -/
theorem wellFormed_of_parse {source path : String} {routing : Routing}
    (h : parse source path = .ok routing) : routing.WellFormed := by
  rw [parse] at h
  split at h
  · next document hdocument => exact Except.ok.inj h ▸ wellFormed_ofDocument document
  · simp at h

end Routing

end Survey
