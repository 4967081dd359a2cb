import BlockScript.Proofs.Block.Stored

/-!
# What decodes to a program

Data decodes exactly if it is a list of block records, by itself or under
`program`. A decoded program is stored as the same data in a normal form, from
which it decodes again. If a list does not decode, the fault is that of the first
record that is not well formed by itself, where a record comes before those inside
it, and it names the path of this record.
-/

set_option autoImplicit false

namespace BlockScript

open Bindings (get?)

variable {fields : List (String × Value)}

namespace Block

structure HasHead (fields : List (String × Value)) : Prop where
  id : ∃ id, get? fields "id" = some (.text id)
  type : ∃ type, get? fields "type" = some (.text type)
  params : get? fields "params" = none ∨ get? fields "params" = some .null ∨
    ∃ params, get? fields "params" = some (.record params)

/-- Data that has the shape of a block, and so has all data inside it. -/
inductive IsRecord : Value → Prop
  | childless {fields : List (String × Value)} : HasHead fields →
      get? fields "children" = none ∨ get? fields "children" = some .null →
      IsRecord (.record fields)
  | parent {fields : List (String × Value)} {items : List Value} : HasHead fields →
      get? fields "children" = some (.list items) → (∀ item ∈ items, IsRecord item) →
      IsRecord (.record fields)

/-- What is wrong with data that should be a block, not looking at the data inside it.
Each rule only counts if those before it are kept. -/
inductive Refused (path : String) : Value → Malformed → Prop
  | notRecord {v : Value} : (∀ fields, v ≠ .record fields) →
      Refused path v (.notRecord path v.kind)
  | noId {fields : List (String × Value)} : (∀ id, get? fields "id" ≠ some (.text id)) →
      Refused path (.record fields) (.noId path)
  | noType {fields : List (String × Value)} {id : String} : get? fields "id" = some (.text id) →
      (∀ type, get? fields "type" ≠ some (.text type)) →
      Refused path (.record fields) (.noType id path)
  | badParams {fields : List (String × Value)} {id type : String} {v : Value} :
      get? fields "id" = some (.text id) → get? fields "type" = some (.text type) →
      get? fields "params" = some v → v ≠ .null → (∀ params, v ≠ .record params) →
      Refused path (.record fields) (.badParams id path)
  | badChildren {fields : List (String × Value)} {id : String} {v : Value} : HasHead fields →
      get? fields "id" = some (.text id) → get? fields "children" = some v →
      v ≠ .null → (∀ items, v ≠ .list items) →
      Refused path (.record fields) (.badChildren id path)

mutual

def visits (path : String) : Value → List (String × Value)
  | .record fields =>
    (path, .record fields) ::
      match get? fields "id" with
      | some (.text id) => visitsInside s!"{path}.{id}" fields
      | _ => []
  | v => [(path, v)]

def visitsInside (place : String) : List (String × Value) → List (String × Value)
  | [] => []
  | (name, .list items) :: fields =>
    if name = "children" then visitsAll place 0 items else visitsInside place fields
  | (name, _) :: fields => if name = "children" then [] else visitsInside place fields

def visitsAll (place : String) (index : Nat) : List Value → List (String × Value)
  | [] => []
  | item :: items => visits s!"{place}[{index}]" item ++ visitsAll place (index + 1) items

end

def givenParams (fields : List (String × Value)) : List (String × Value) :=
  match get? fields "params" with
  | some (.record params) => params
  | _ => []

mutual

def normalized : Value → Value
  | .record fields =>
    .record ([("id", (get? fields "id").getD .null), ("type", (get? fields "type").getD .null),
      ("params", .record (givenParams fields))] ++ normalizedChildren fields)
  | v => v

def normalizedChildren : List (String × Value) → List (String × Value)
  | [] => []
  | (name, .list items) :: fields =>
    if name = "children" then [("children", .list (normalizedAll items))]
    else normalizedChildren fields
  | (name, _) :: fields => if name = "children" then [] else normalizedChildren fields

def normalizedAll : List Value → List Value
  | [] => []
  | item :: items => normalized item :: normalizedAll items

end

end Block

theorem Value.sizeOf_lt_of_get? {name : String} {v : Value} (h : get? fields name = some v) :
    sizeOf v < sizeOf fields := by
  obtain ⟨key, hm⟩ := Bindings.exists_of_get? h
  have hlt := List.sizeOf_lt_of_mem hm
  have hv : sizeOf v < sizeOf (key, v) := by simp
  omega

theorem Value.induction_inside {p : Value → Prop}
    (h : ∀ v, (∀ fields items, v = .record fields → get? fields "children" = some (.list items) →
      ∀ item ∈ items, p item) → p v) (v : Value) : p v := by
  induction hn : sizeOf v using Nat.strongRecOn generalizing v with
  | ind n ih =>
    refine h v fun fields items hv hc item hi => ih (sizeOf item) ?_ item rfl
    have hitem := List.sizeOf_lt_of_mem hi
    have hitems := Value.sizeOf_lt_of_get? hc
    simp only [Value.list.sizeOf_spec] at hitems
    rw [← hn, hv, Value.record.sizeOf_spec]
    omega

namespace Block

/-- The blocks inside depend on the fields only by what stands under `children`. -/
theorem childrenOf_eq (id path : String) (fields : List (String × Value)) :
    childrenOf id path fields =
      match get? fields "children" with
      | none => .ok none
      | some .null => .ok none
      | some (.list items) => some <$> ofValues s!"{path}.{id}" 0 items
      | some _ => .error (.badChildren id path) := by
  induction fields with
  | nil => rfl
  | cons field fields ih =>
    obtain ⟨name, v⟩ := field
    by_cases hn : name = "children"
    · cases v <;> simp [childrenOf, get?, hn]
    · have hne : ¬ "children" = name := fun h => hn h.symm
      cases v <;> simpa [childrenOf, get?, hn, hne] using ih

theorem visitsInside_eq (place : String) (fields : List (String × Value)) :
    visitsInside place fields =
      match get? fields "children" with
      | some (.list items) => visitsAll place 0 items
      | _ => [] := by
  induction fields with
  | nil => rfl
  | cons field fields ih =>
    obtain ⟨name, v⟩ := field
    by_cases hn : name = "children"
    · cases v <;> simp [visitsInside, get?, hn]
    · have hne : ¬ "children" = name := fun h => hn h.symm
      cases v <;> simpa [visitsInside, get?, hn, hne] using ih

theorem normalizedChildren_eq (fields : List (String × Value)) :
    normalizedChildren fields =
      match get? fields "children" with
      | some (.list items) => [("children", .list (normalizedAll items))]
      | _ => [] := by
  induction fields with
  | nil => rfl
  | cons field fields ih =>
    obtain ⟨name, v⟩ := field
    by_cases hn : name = "children"
    · cases v <;> simp [normalizedChildren, get?, hn]
    · have hne : ¬ "children" = name := fun h => hn h.symm
      cases v <;> simpa [normalizedChildren, get?, hn, hne] using ih

theorem HasHead.not_refused (h : HasHead fields)
    (hc : get? fields "children" = none ∨ get? fields "children" = some .null ∨
      ∃ items, get? fields "children" = some (.list items)) (path : String) (e : Malformed) :
    ¬ Refused path (.record fields) e := by
  obtain ⟨id, hid⟩ := h.id
  obtain ⟨type, htype⟩ := h.type
  rintro (hr | hr | ⟨-, hr⟩ | ⟨-, -, hp, hnull, hrecord⟩ | ⟨-, -, hv, hnull, hlist⟩)
  · exact hr fields rfl
  · exact hr id hid
  · exact hr type htype
  · rcases h.params with hp' | hp' | ⟨params, hp'⟩ <;> rw [hp] at hp' <;> cases hp'
    · exact hnull rfl
    · exact hrecord params rfl
  · rcases hc with hc | hc | ⟨items, hc⟩ <;> rw [hv] at hc <;> cases hc
    · exact hnull rfl
    · exact hlist items rfl

inductive Decoded (path : String) : Value → Except Malformed Block → Prop
  | refused {v : Value} {e : Malformed} : Refused path v e → Decoded path v (.error e)
  | childless {fields : List (String × Value)} {id type : String} : HasHead fields →
      get? fields "id" = some (.text id) → get? fields "type" = some (.text type) →
      get? fields "children" = none ∨ get? fields "children" = some .null →
      Decoded path (.record fields) (.ok ⟨id, type, givenParams fields, none⟩)
  | parent {fields : List (String × Value)} {id type : String} {items : List Value} :
      HasHead fields → get? fields "id" = some (.text id) →
      get? fields "type" = some (.text type) → get? fields "children" = some (.list items) →
      Decoded path (.record fields) (do
        let inner ← ofValues s!"{path}.{id}" 0 items
        return ⟨id, type, givenParams fields, some inner⟩)

theorem decoded_of_head {path id type : String} (h : HasHead fields)
    (hid : get? fields "id" = some (.text id)) (htype : get? fields "type" = some (.text type)) :
    Decoded path (.record fields) (do
      let children ← childrenOf id path fields
      return ⟨id, type, givenParams fields, children⟩) := by
  rw [childrenOf_eq]
  cases hc : get? fields "children" with
  | none => exact .childless h hid htype (.inl hc)
  | some v =>
    cases v with
    | null => exact .childless h hid htype (.inr hc)
    | list items => simpa using (Decoded.parent h hid htype hc : Decoded path _ _)
    | bool | number | text | record => exact .refused (.badChildren h hid hc nofun nofun)

theorem idOf_of_missing (h : ∀ id, get? fields "id" ≠ some (.text id)) (path : String) :
    idOf path fields = .error (.noId path) := by
  unfold idOf
  split
  · next id hid => exact absurd hid (h id)
  · rfl

theorem typeOf_of_missing (h : ∀ type, get? fields "type" ≠ some (.text type)) (id path : String) :
    typeOf id path fields = .error (.noType id path) := by
  unfold typeOf
  split
  · next type htype => exact absurd htype (h type)
  · rfl

/-- Parameters are left out, nothing, a record, or something else, which is refused. -/
theorem paramsOf_cases (id path : String) (fields : List (String × Value)) :
    ((get? fields "params" = none ∨ get? fields "params" = some .null ∨
        ∃ params, get? fields "params" = some (.record params)) ∧
      paramsOf id path fields = .ok (givenParams fields)) ∨
    ∃ v, get? fields "params" = some v ∧ v ≠ .null ∧ (∀ params, v ≠ .record params) ∧
      paramsOf id path fields = .error (.badParams id path) := by
  unfold paramsOf givenParams
  cases get? fields "params" with
  | none => exact .inl ⟨.inl rfl, rfl⟩
  | some v =>
    cases v with
    | null => exact .inl ⟨.inr (.inl rfl), rfl⟩
    | record params => exact .inl ⟨.inr (.inr ⟨params, rfl⟩), rfl⟩
    | bool | number | text | list => exact .inr ⟨_, rfl, nofun, nofun, rfl⟩

theorem decoded (path : String) (v : Value) : Decoded path v (ofValue path v) := by
  cases v with
  | null | bool | number | text | list => exact .refused (.notRecord nofun)
  | record fields =>
    rw [ofValue]
    by_cases hid : ∃ id, get? fields "id" = some (.text id)
    · obtain ⟨id, hid⟩ := hid
      have hi : idOf path fields = .ok id := by rw [idOf, hid]
      rw [hi, Except.ok_bind]
      by_cases htype : ∃ type, get? fields "type" = some (.text type)
      · obtain ⟨type, htype⟩ := htype
        have ht : typeOf id path fields = .ok type := by rw [typeOf, htype]
        rw [ht, Except.ok_bind]
        obtain ⟨hparams, hp⟩ | ⟨v, hv, hnull, hrecord, hp⟩ := paramsOf_cases id path fields
        · rw [hp, Except.ok_bind]
          exact decoded_of_head ⟨⟨id, hid⟩, ⟨type, htype⟩, hparams⟩ hid htype
        · rw [hp]
          exact .refused (.badParams hid htype hv hnull hrecord)
      · rw [typeOf_of_missing (not_exists.1 htype)]
        exact .refused (.noType hid (not_exists.1 htype))
    · rw [idOf_of_missing (not_exists.1 hid)]
      exact .refused (.noId (not_exists.1 hid))

def Reports (list : List (String × Value)) (e : Malformed) : Prop :=
  ∃ before path v after, list = before ++ (path, v) :: after ∧
    (∀ x ∈ before, ∀ e', ¬ Refused x.1 x.2 e') ∧ Refused path v e

theorem Reports.append_left {list : List (String × Value)} {e : Malformed} (h : Reports list e)
    (more : List (String × Value)) : Reports (list ++ more) e := by
  obtain ⟨before, path, v, after, rfl, hb, hv⟩ := h
  exact ⟨before, path, v, after ++ more, by simp, hb, hv⟩

theorem Reports.append_right {list : List (String × Value)} {e : Malformed} (h : Reports list e)
    {front : List (String × Value)} (hf : ∀ x ∈ front, ∀ e', ¬ Refused x.1 x.2 e') :
    Reports (front ++ list) e := by
  obtain ⟨before, path, v, after, rfl, hb, hv⟩ := h
  exact ⟨front ++ before, path, v, after, by simp, List.forall_mem_append.2 ⟨hf, hb⟩, hv⟩

/-- What decoding comes to, in terms of the data alone. -/
def Settled (path : String) (v : Value) : Except Malformed Block → Prop
  | .ok b => IsRecord v ∧ b.toValue = normalized v ∧
      ∀ x ∈ visits path v, ∀ e, ¬ Refused x.1 x.2 e
  | .error e => Reports (visits path v) e

def SettledAll (place : String) (index : Nat) (items : List Value) :
    Except Malformed (List Block) → Prop
  | .ok bs => (∀ item ∈ items, IsRecord item) ∧ toValues bs = normalizedAll items ∧
      ∀ x ∈ visitsAll place index items, ∀ e, ¬ Refused x.1 x.2 e
  | .error e => Reports (visitsAll place index items) e

/-- A list is decoded item by item, and the first item that fails is the last one looked at. -/
theorem settledAll {items : List Value}
    (h : ∀ item ∈ items, ∀ path, Settled path item (ofValue path item)) (place : String)
    (index : Nat) : SettledAll place index items (ofValues place index items) := by
  induction items generalizing index with
  | nil => exact ⟨by simp, rfl, by simp [visitsAll]⟩
  | cons item items ih =>
    obtain ⟨hitem, hitems⟩ := List.forall_mem_cons.1 h
    have hfirst := hitem (pathAt place index)
    have hrest := ih hitems (index + 1)
    rw [ofValues]
    cases hf : ofValue (pathAt place index) item with
    | error e =>
      rw [hf] at hfirst
      exact hfirst.append_left _
    | ok b =>
      rw [hf] at hfirst
      obtain ⟨hrecord, hnormal, hkept⟩ := hfirst
      rw [Except.ok_bind]
      cases hr : ofValues place (index + 1) items with
      | error e =>
        rw [hr] at hrest
        exact hrest.append_right hkept
      | ok bs =>
        rw [hr] at hrest
        obtain ⟨hrecords, hnormals, hkeep⟩ := hrest
        refine ⟨List.forall_mem_cons.2 ⟨hrecord, hrecords⟩, ?_, ?_⟩
        · rw [toValues, normalizedAll, hnormal, hnormals]
        · exact List.forall_mem_append.2 ⟨hkept, hkeep⟩

theorem exists_visits (path : String) (v : Value) : ∃ rest, visits path v = (path, v) :: rest := by
  cases v <;> exact ⟨_, rfl⟩

theorem visits_record {id : String} (hid : get? fields "id" = some (.text id)) (path : String) :
    visits path (.record fields) =
      (path, .record fields) :: visitsInside s!"{path}.{id}" fields := by
  rw [visits, hid]

theorem normalized_record {id type : String} (hid : get? fields "id" = some (.text id))
    (htype : get? fields "type" = some (.text type)) :
    normalized (.record fields) = .record ([("id", .text id), ("type", .text type),
      ("params", .record (givenParams fields))] ++ normalizedChildren fields) := by
  rw [normalized, hid, htype]
  rfl

/-- Decoding keeps to the shape of the data: it gives back the normal form, or reports
the first record that is refused. -/
theorem settled (v : Value) (path : String) : Settled path v (ofValue path v) := by
  induction v using Value.induction_inside generalizing path with
  | h v ih =>
    have hd := decoded path v
    generalize ofValue path v = r at hd
    cases hd with
    | refused hr =>
      obtain ⟨rest, hv⟩ := exists_visits path v
      exact ⟨[], path, v, rest, hv, by simp, hr⟩
    | @childless fields id type hh hid htype hc =>
      have hkept := hh.not_refused (hc.imp_right .inl) path
      refine ⟨.childless hh hc, ?_, ?_⟩
      · rw [normalized_record hid htype, normalizedChildren_eq]
        rcases hc with hc | hc <;> rw [hc] <;> rfl
      · rw [visits_record hid, visitsInside_eq]
        rcases hc with hc | hc <;> rw [hc] <;> simpa using hkept
    | @parent fields id type items hh hid htype hc =>
      have hkept := hh.not_refused (.inr (.inr ⟨items, hc⟩)) path
      have hall := settledAll (ih fields items rfl hc) s!"{path}.{id}" 0
      have hvisits : visits path (.record fields) =
          [(path, .record fields)] ++ visitsAll s!"{path}.{id}" 0 items := by
        rw [visits_record hid, visitsInside_eq, hc]
        rfl
      cases hi : ofValues s!"{path}.{id}" 0 items with
      | error e =>
        rw [hi] at hall
        change Reports _ e
        rw [hvisits]
        exact hall.append_right (by simpa using hkept)
      | ok inner =>
        rw [hi] at hall
        obtain ⟨hrecords, hnormals, hkeep⟩ := hall
        refine ⟨.parent hh hc hrecords, ?_, ?_⟩
        · rw [normalized_record hid htype, normalizedChildren_eq, hc, toValue, hnormals]
          rfl
        · rw [hvisits, List.forall_mem_append]
          exact ⟨by simpa using hkept, hkeep⟩

theorem exists_ofValues {items : List Value}
    (h : ∀ item ∈ items, ∀ path, ∃ b, ofValue path item = .ok b) (place : String) (index : Nat) :
    ∃ bs, ofValues place index items = .ok bs := by
  induction items generalizing index with
  | nil => exact ⟨[], rfl⟩
  | cons item items ih =>
    obtain ⟨hitem, hitems⟩ := List.forall_mem_cons.1 h
    obtain ⟨b, hb⟩ := hitem (pathAt place index)
    obtain ⟨bs, hbs⟩ := ih hitems (index + 1)
    exact ⟨b :: bs, by rw [ofValues, hb, Except.ok_bind, hbs]; rfl⟩

theorem exists_ofValue {v : Value} (h : IsRecord v) (path : String) :
    ∃ b, ofValue path v = .ok b := by
  induction h generalizing path with
  | @childless fields hh hc =>
    have hd := decoded path (.record fields)
    generalize ofValue path (.record fields) = r at hd ⊢
    cases hd with
    | refused hr => exact absurd hr (hh.not_refused (hc.imp_right .inl) path _)
    | childless => exact ⟨_, rfl⟩
    | parent _ _ _ hc' => rcases hc with hc | hc <;> rw [hc'] at hc <;> cases hc
  | @parent fields items hh hc _ ih =>
    have hd := decoded path (.record fields)
    generalize ofValue path (.record fields) = r at hd ⊢
    cases hd with
    | refused hr => exact absurd hr (hh.not_refused (.inr (.inr ⟨items, hc⟩)) path _)
    | childless => exact ⟨_, rfl⟩
    | @parent _ id type items' _ _ _ hc' =>
      obtain rfl : items = items' := by
        rw [hc'] at hc
        cases hc
        rfl
      obtain ⟨inner, hi⟩ := exists_ofValues ih s!"{path}.{id}" 0
      rw [hi]
      exact ⟨_, rfl⟩

/-- The message about data that is refused has the path of the data in it. -/
theorem Refused.names_path {path : String} {v : Value} {e : Malformed} (h : Refused path v e) :
    ∃ front back, e.message = front ++ path ++ back := by
  cases h with
  | notRecord =>
    refine ⟨"Expected an object at ", ", got " ++ v.kind ++ ".", ?_⟩
    change "Expected an object at " ++ path ++ ", got " ++ v.kind ++ "." = _
    simp only [String.append_assoc]
  | noId => exact ⟨"Block at ", " needs a string 'id'.", rfl⟩
  | noType => exact ⟨_, " needs a string 'type'.", rfl⟩
  | badParams => exact ⟨_, " has non-object 'params'.", rfl⟩
  | badChildren => exact ⟨_, " has non-list 'children'.", rfl⟩

end Block

namespace Program

inductive Holds : Value → List Value → Prop
  | bare (items : List Value) : Holds (.list items) items
  | named {fields : List (String × Value)} {items : List Value} :
      get? fields "program" = some (.list items) → Holds (.record fields) items

theorem listOf_eq_some_iff {data : Value} {items : List Value} :
    listOf data = some items ↔ Holds data items := by
  constructor
  · intro h
    unfold listOf at h
    split at h
    · cases h
      exact .bare items
    · split at h
      · next hg =>
        cases h
        exact .named hg
      · cases h
    · cases h
  · rintro (_ | hg)
    · rfl
    · rw [listOf, hg]

theorem ofValue_of_holds {data : Value} {items : List Value} (h : Holds data items) :
    ofValue data = Block.ofValues "program" 0 items := by
  rw [ofValue, listOf_eq_some_iff.2 h]

theorem ofValue_of_not_holds {data : Value} (h : ∀ items, ¬ Holds data items) :
    ofValue data = .error .notList := by
  unfold ofValue
  split
  · next items hl => exact absurd (listOf_eq_some_iff.1 hl) (h items)
  · rfl

theorem exists_holds {data : Value} {program : Program} (h : ofValue data = .ok program) :
    ∃ items, Holds data items := by
  by_contra hn
  rw [ofValue_of_not_holds (not_exists.1 hn)] at h
  cases h

theorem ofValue_toValue (program : Program) : ofValue program.toValue = .ok program :=
  (ofValue_of_holds (.bare _)).trans (Block.ofValues_toValues "program" 0 program)

/-- Decoding accepts exactly the shape of a program, gives it back in normal form, and
points at the first record that is wrong. A list of block records is needed, by itself
or under `program`. What is decoded is stored as the normal form of that list and
decodes from it again, as every program does from what it is stored as. Of a list that
does not decode, the records are looked at one after another, those inside a record
right after it: all before some record are well formed by themselves, that record is
not, and the fault is its own and has its path in the message. -/
theorem decoding_exact (data : Value) :
    ((∃ program, ofValue data = .ok program) ↔
      ∃ items, Holds data items ∧ ∀ item ∈ items, Block.IsRecord item) ∧
    (∀ program, ofValue data = .ok program →
      (∃ items, Holds data items ∧ program.toValue = .list (Block.normalizedAll items)) ∧
      ofValue program.toValue = .ok program) ∧
    (∀ program : Program, ofValue program.toValue = .ok program) ∧
    (∀ items e, Holds data items → ofValue data = .error e →
      ∃ before path v after,
        Block.visitsAll "program" 0 items = before ++ (path, v) :: after ∧
        (∀ x ∈ before, ∀ e', ¬ Block.Refused x.1 x.2 e') ∧ Block.Refused path v e ∧
        ∃ front back, e.message = front ++ path ++ back) ∧
    ((∀ items, ¬ Holds data items) → ofValue data = .error .notList) := by
  have hsettled : ∀ items, Holds data items →
      Block.SettledAll "program" 0 items (ofValue data) := by
    intro items hi
    rw [ofValue_of_holds hi]
    exact Block.settledAll (fun item _ => Block.settled item) "program" 0
  refine ⟨⟨?_, ?_⟩, ?_, ofValue_toValue, ?_, ofValue_of_not_holds⟩
  · rintro ⟨program, hp⟩
    obtain ⟨items, hi⟩ := exists_holds hp
    have hs := hsettled items hi
    rw [hp] at hs
    exact ⟨items, hi, hs.1⟩
  · rintro ⟨items, hi, hrecords⟩
    rw [ofValue_of_holds hi]
    exact Block.exists_ofValues (fun item hm => Block.exists_ofValue (hrecords item hm)) _ _
  · intro program hp
    obtain ⟨items, hi⟩ := exists_holds hp
    have hs := hsettled items hi
    rw [hp] at hs
    exact ⟨⟨items, hi, congrArg Value.list hs.2.1⟩, ofValue_toValue program⟩
  · intro items e hi he
    have hs := hsettled items hi
    rw [he] at hs
    obtain ⟨before, path, v, after, hv, hkept, hr⟩ := hs
    exact ⟨before, path, v, after, hv, hkept, hr, hr.names_path⟩

-- The second record inside the first one comes before the second one of the list.
example :
    ofValue (.list [.record [("type", .text "repeat"), ("id", .text "r"), ("children", .list
        [.record [("id", .text "p"), ("type", .text "print"), ("params", .null)], .record []])],
      .null]) = .error (.noId "program[0].r[1]") := by rfl

end Program

end BlockScript
