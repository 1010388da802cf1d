import RequestQuery.Proofs.Whitelist

/-!
# The layout of a request

What a request says does not depend on how it is laid out. An option that lists its entries may come
once, with commas, or under repeated keys; options may come in any order; and keys that a contract
lets through say nothing. Two lists of pairs that are the same up to this are validated alike, with
the same errors, and nothing else is looked at when they are compiled.

* `Parameters.valuesOf`, `Parameters.get?_ofPairs`: the values of a key among pairs.
* `Parameters.SameRequest`: pairs that say the same under a contract.
* `Options.checks_eq`, `Options.validate_eq`: they are checked and validated alike.
* `Planner.compile_eq_of_sameRequest`: and compiled alike.
-/

namespace RequestQuery

open Fallible

/-! ## Pairs -/

namespace Parameters

/-- The values of a key, in the order in which they came. -/
def valuesOf (key : String) (pairs : List (String × String)) : List String :=
  (pairs.filter fun pair => pair.1 = key).map Prod.snd

/-- The values of a key of a list of pairs, after those that were there. -/
theorem get?_pushAll (key : String) (pairs : List (String × String)) (p : Parameters) :
    (p.pushAll pairs).get? key = if valuesOf key pairs = [] then p.get? key
      else some ((p.get? key).getD [] ++ valuesOf key pairs) := by
  induction pairs generalizing p with
  | nil => exact (if_pos rfl).symm
  | cons pair rest ih =>
    obtain ⟨k, value⟩ := pair
    have hstep := ih (p.push k value)
    change ((p.push k value).pushAll rest).get? key = _
    rw [hstep]
    by_cases hk : k = key
    · subst hk
      have hvalues : valuesOf k ((k, value) :: rest) = value :: valuesOf k rest := by
        simp [valuesOf]
      rw [hvalues, get?_push_self, if_neg (List.cons_ne_nil _ _), Option.getD_some,
        List.append_assoc, List.singleton_append]
      split
      · next hnone => rw [hnone]
      · rfl
    · have hvalues : valuesOf key ((k, value) :: rest) = valuesOf key rest := by
        simp [valuesOf, hk]
      rw [hvalues, get?_push_of_ne p (Ne.symm hk)]

/-- **A key of a list of pairs has the values that came with it**, if any did. -/
theorem get?_ofPairs (key : String) (pairs : List (String × String)) :
    (ofPairs pairs).get? key =
      if valuesOf key pairs = [] then none else some (valuesOf key pairs) := by
  have hempty : empty.get? key = none := rfl
  rw [ofPairs, get?_pushAll, hempty, Option.getD_none, List.nil_append]

theorem exists_of_get?_ofPairs {key : String} {values : List String}
    {pairs : List (String × String)} (h : (ofPairs pairs).get? key = some values) :
    ∃ pair ∈ pairs, pair.1 = key := by
  rw [get?_ofPairs] at h
  split at h
  · cases h
  · next hne =>
    obtain ⟨value, hvalue⟩ := List.exists_mem_of_ne_nil _ hne
    obtain ⟨pair, hpair, -⟩ := List.mem_map.1 hvalue
    obtain ⟨hmem, hkey⟩ := List.mem_filter.1 hpair
    exact ⟨pair, hmem, of_decide_eq_true hkey⟩

/-! ## The same request -/

/-- The options that list entries. -/
def listOptions : List QueryOption := [.sort, .expand, .select]

/-- The contract lets through a key that is no option. -/
def Ignored (contract : Contract) (key : String) : Prop :=
  contract.isOpen = true ∨ contract.passThrough.contains key = true

instance (contract : Contract) (key : String) : Decidable (Ignored contract key) :=
  inferInstanceAs (Decidable (_ ∨ _))

/-- Two lists of pairs say the same: each option that lists entries comes in both or in neither,
with the same values when they are joined by commas; every other option has the same values; and all
other keys are let through. -/
structure SameRequest (contract : Contract) (pairs pairs' : List (String × String)) : Prop where
  present : ∀ option ∈ listOptions,
    valuesOf option.key pairs = [] ↔ valuesOf option.key pairs' = []
  joined : ∀ option ∈ listOptions,
    Text.join "," (valuesOf option.key pairs) = Text.join "," (valuesOf option.key pairs')
  values : ∀ option, option ∉ listOptions →
    valuesOf option.key pairs = valuesOf option.key pairs'
  ignored : ∀ pair ∈ pairs ++ pairs', QueryOption.ofKey? pair.1 = none → Ignored contract pair.1

variable {contract : Contract} {pairs pairs' : List (String × String)}

/-- The values of every option are the same when they are joined. -/
theorem SameRequest.map_join (h : SameRequest contract pairs pairs') (option : QueryOption) :
    ((ofPairs pairs).get? option.key).map (Text.join ",") =
      ((ofPairs pairs').get? option.key).map (Text.join ",") := by
  rw [get?_ofPairs, get?_ofPairs]
  by_cases hoption : option ∈ listOptions
  · by_cases hnone : valuesOf option.key pairs = []
    · rw [if_pos hnone, if_pos ((h.present option hoption).1 hnone)]
    · rw [if_neg hnone, if_neg (mt (h.present option hoption).2 hnone), Option.map_some,
        Option.map_some, h.joined option hoption]
  · rw [h.values option hoption]

theorem SameRequest.get?_eq (h : SameRequest contract pairs pairs') {option : QueryOption}
    (hoption : option ∉ listOptions) :
    (ofPairs pairs).get? option.key = (ofPairs pairs').get? option.key := by
  rw [get?_ofPairs, get?_ofPairs, h.values option hoption]

end Parameters

/-! ## Validation -/

namespace Options

open Parameters (SameRequest ofPairs listOptions)

/-- The check of a key sees its values only when they are joined. -/
def checkJoined (contract : Contract) (key text : String) : Except Rejection Unit :=
  let refuse (reason : Refusal) := .error (.invalid key text reason)
  match QueryOption.ofKey? key with
  | some option => if contract.allows option then .ok () else refuse .disabled
  | none =>
    if contract.isOpen || contract.passThrough.contains key then .ok ()
    else refuse .unknownParameter

theorem checkJoined_of_ignored {contract : Contract} {key : String}
    (hkey : QueryOption.ofKey? key = none) (h : Parameters.Ignored contract key) (text : String) :
    checkJoined contract key text = .ok () := by
  unfold checkJoined
  rw [hkey]
  exact if_pos (Bool.or_eq_true_iff.2 h)

/-- The options among the keys of a request, with their values joined. -/
def joinedOptions (entries : List (String × List String)) : List (String × String) :=
  (entries.filter fun e => (QueryOption.ofKey? e.1).isSome).map fun e => (e.1, Text.join "," e.2)

/-- Keys that are let through pass the check, so only the options are checked. -/
theorem forM_checkKey {contract : Contract} {entries : List (String × List String)}
    (h : ∀ e ∈ entries, QueryOption.ofKey? e.1 = none → Parameters.Ignored contract e.1) :
    entries.forM (fun (key, values) => checkKey contract key values) =
      (joinedOptions entries).forM fun (key, text) => checkJoined contract key text := by
  unfold joinedOptions
  induction entries with
  | nil => rfl
  | cons e rest ih =>
    obtain ⟨key, values⟩ := e
    have hrest := ih fun e he => h e (List.mem_cons_of_mem _ he)
    rw [List.forM_eq_forM, List.forM_eq_forM] at hrest ⊢
    rw [List.forM_cons, hrest, List.filter_cons]
    change (checkJoined contract key (Text.join "," values) >>= fun _ => _) = _
    cases hkey : QueryOption.ofKey? key with
    | none =>
      rw [checkJoined_of_ignored hkey (h _ List.mem_cons_self hkey)]
      rfl
    | some option => rfl

/-- The options of the same request have the same joined values. -/
theorem joinedOptions_eq {contract : Contract} {pairs pairs' : List (String × String)}
    (h : SameRequest contract pairs pairs') :
    joinedOptions (ofPairs pairs).toList = joinedOptions (ofPairs pairs').toList := by
  have hordered (p : Parameters) : Entries.Ordered (joinedOptions p.toList) :=
    Entries.ordered_map _ (Entries.ordered_filter _ p.entries.ordered)
  refine Entries.eq_of_get?_eq (hordered _) (hordered _) fun key => ?_
  rw [joinedOptions, joinedOptions, Entries.get?_map, Entries.get?_map,
    Entries.get?_filter fun key => (QueryOption.ofKey? key).isSome,
    Entries.get?_filter fun key => (QueryOption.ofKey? key).isSome]
  cases hkey : QueryOption.ofKey? key with
  | none => rfl
  | some option =>
    obtain rfl : option.key = key := QueryOption.key_of_ofKey? hkey
    exact h.map_join option

theorem ignored_ofPairs {contract : Contract} {pairs : List (String × String)}
    (h : ∀ pair ∈ pairs, QueryOption.ofKey? pair.1 = none → Parameters.Ignored contract pair.1) :
    ∀ e ∈ (ofPairs pairs).toList, QueryOption.ofKey? e.1 = none →
      Parameters.Ignored contract e.1 := by
  intro e he hkey
  have hget : (ofPairs pairs).get? e.1 = some e.2 :=
    Entries.get?_eq_some_of_mem (ofPairs pairs).entries.ordered he
  obtain ⟨pair, hpair, hname⟩ := Parameters.exists_of_get?_ofPairs hget
  rw [← hname] at hkey ⊢
  exact h pair hpair hkey

variable {contract : Contract} {pairs pairs' : List (String × String)}

/-- **The same request passes the same checks**, or fails the same one with the same text. -/
theorem checks_eq (h : SameRequest contract pairs pairs') :
    (ofPairs pairs).toList.forM (fun (key, values) => checkKey contract key values) =
      (ofPairs pairs').toList.forM fun (key, values) => checkKey contract key values := by
  have hignored := ignored_ofPairs fun pair hpair =>
    h.ignored pair (List.mem_append_left pairs' hpair)
  have hignored' := ignored_ofPairs fun pair hpair =>
    h.ignored pair (List.mem_append_right pairs hpair)
  rw [forM_checkKey hignored, forM_checkKey hignored', joinedOptions_eq h]

theorem single?_eq (h : SameRequest contract pairs pairs') (option : QueryOption)
    (hoption : option ∉ listOptions) :
    single? (ofPairs pairs) option = single? (ofPairs pairs') option := by
  unfold single?
  rw [h.get?_eq hoption]

/-- The entries of an option are those of its joined values. -/
theorem entries_ofPairs (pairs : List (String × String)) (option : QueryOption) :
    entries (ofPairs pairs) option =
      if Parameters.valuesOf option.key pairs = [] then [] else
        ((Text.split ',' (Text.join "," (Parameters.valuesOf option.key pairs))).map
          Text.trim).filter (· ≠ "") := by
  unfold entries
  rw [Parameters.get?_ofPairs]
  split
  · rfl
  · next hne =>
    have hsplit := Text.split_join ',' hne
    change Text.split ',' (Text.join "," _) = _ at hsplit
    rw [hsplit, Option.getD_some]

theorem entries_eq (h : SameRequest contract pairs pairs') (option : QueryOption)
    (hoption : option ∈ listOptions) :
    entries (ofPairs pairs) option = entries (ofPairs pairs') option := by
  rw [entries_ofPairs, entries_ofPairs, h.joined option hoption]
  simp only [h.present option hoption]

/-- **The same request has the same options**, or is refused in the same way. -/
theorem validate_eq (h : SameRequest contract pairs pairs') (limits : Limits) :
    validate (ofPairs pairs) contract limits = validate (ofPairs pairs') contract limits := by
  unfold validate
  rw [checks_eq h, single?_eq h .filter (by decide), single?_eq h .top (by decide),
    single?_eq h .skip (by decide), single?_eq h .count (by decide), entries_eq h .sort (by decide),
    entries_eq h .expand (by decide), entries_eq h .select (by decide)]

end Options

/-! ## Compilation -/

namespace Planner

open Parameters (SameRequest ofPairs)

variable {p : Planner} {resource : String} {pairs pairs' : List (String × String)}

/-- **What is compiled depends on what a request says, not on its layout**: requests that say the
same have the same plan, or are refused with the same error. -/
theorem compile_eq_of_sameRequest (h : SameRequest (p.config.contractFor resource) pairs pairs')
    (id : Option (List Value)) :
    p.compile resource (ofPairs pairs) id = p.compile resource (ofPairs pairs') id := by
  unfold compile
  simp only [Options.validate_eq h]

/-- Settings under which a token is let through. -/
def tokenConfig : Config := { contract := { passThrough := .ofList ["token"] } }

/-- A request for staff in one layout. -/
def staffPairs : List (String × String) :=
  [("$sort", "-name"), ("$expand", "boss/boss,boss/reports,reports"), ("$select", "name,boss.name")]

/-- The same request in another layout, with a token. -/
def staffPairs' : List (String × String) :=
  [("$select", "name"), ("token", "a"), ("$expand", "boss/boss"), ("$select", "boss.name"),
    ("$expand", "boss/reports,reports"), ("$sort", "-name"), ("token", "b")]

theorem compile_eq_of_sameRequest_staff :
    SameRequest (tokenConfig.contractFor "staff") staffPairs staffPairs' ∧ ∃ plan,
      compile ⟨staffSchema, tokenConfig⟩ "staff" (ofPairs staffPairs) (some [.int 3]) = .ok plan ∧
        compile ⟨staffSchema, tokenConfig⟩ "staff" (ofPairs staffPairs') (some [.int 3]) =
          .ok plan := by
  have h : SameRequest (tokenConfig.contractFor "staff") staffPairs staffPairs' := {
    present := by decide
    joined := by decide +kernel
    values := fun option hoption => by
      cases option <;> first | rfl | exact absurd (by decide) hoption
    ignored := by decide +kernel }
  obtain ⟨plan, hplan⟩ := exists_of_isOk
    (x := compile ⟨staffSchema, tokenConfig⟩ "staff" (ofPairs staffPairs) (some [.int 3]))
    (by decide +kernel)
  refine ⟨h, plan, hplan, ?_⟩
  rw [← compile_eq_of_sameRequest (p := ⟨staffSchema, tokenConfig⟩) h, hplan]

end Planner

end RequestQuery
