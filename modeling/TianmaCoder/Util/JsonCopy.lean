import Mathlib.Data.List.Perm.Subperm
import TianmaCoder.Util.JsonWalk

/-!
# What the walk copies

The loop stands for a recursion: a value is read below the objects on the way down to it. A walk that
copies fills a new object for each object that it reads, behind the objects it had before, and
touches no older one but at the destination of the copy.

## Main definitions

* `JsonWalk.readTree` — the recursion.
* `JsonWalk.Builds` — the data of a copy.
* `JsonWalk.Delivered` — a copy is at its destination.

## Main results

* `JsonWalk.visit_spec` — the loop passes a value as the recursion reads it.
-/

namespace TianmaCoder

namespace JsonWalk

/-! ## The recursion -/

/-- The JSON data of a scalar that JSON keeps. -/
def ScriptValue.data? : ScriptValue → Option Json
  | .null => some .null
  | .bool b => some (.bool b)
  | .int n => some (.int n)
  | .float bits => some (.float bits)
  | .str s => some (.str s)
  | _ => none

/-- The data of a value below some objects, at most `depth` objects deep. -/
def readTree (source : Heap ScriptObject) : ℕ → List ℕ → ScriptValue → Option Json
  | 0, _, value => value.data?
  | depth + 1, ancestors, value =>
    match value with
    | .ref r =>
      if r ∈ ancestors then none
      else
        match source.read r with
        | some (.array items extraKeys plain) =>
          if plain ∧ (items.filter Option.isSome).length + 1 + extraKeys = items.length + 1 then
            (items.mapM fun (item : Option ScriptValue) =>
              item.bind (readTree source depth (r :: ancestors))).map .arr
          else none
        | some (.record members hidden plain) =>
          if plain ∧ hidden = 0 then
            (members.entries.mapM fun entry =>
              (readTree source depth (r :: ancestors) entry.2).map (entry.1, ·)).map .obj
          else none
        | none => none
    | value => value.data?

/-! ## The data of a copy -/

mutual

/-- A value of the copy has this data, in objects from one reference up to another. -/
def Builds (targets : Heap Target) (lo hi : ℕ) : Json → TargetValue → Prop
  | .null, value => value = .null
  | .bool b, value => value = .bool b
  | .int n, value => value = .int n
  | .float bits, value => value = .float bits
  | .str s, value => value = .str s
  | .arr js, value => ∃ r items, value = .target r ∧ lo ≤ r ∧ r < hi ∧
      targets.read r = some (.array (items.map some)) ∧ BuildsItems targets lo hi js items
  | .obj js, value => ∃ r members, value = .target r ∧ lo ≤ r ∧ r < hi ∧
      targets.read r = some (.record members) ∧ BuildsMembers targets lo hi js members

def BuildsItems (targets : Heap Target) (lo hi : ℕ) : List Json → List TargetValue → Prop
  | [], items => items = []
  | j :: js, items => ∃ item rest, items = item :: rest ∧ Builds targets lo hi j item ∧
      BuildsItems targets lo hi js rest

def BuildsMembers (targets : Heap Target) (lo hi : ℕ) :
    List (String × Json) → List (String × TargetValue) → Prop
  | [], members => members = []
  | (key, j) :: js, members => ∃ item rest, members = (key, item) :: rest ∧
      Builds targets lo hi j item ∧ BuildsMembers targets lo hi js rest

end

mutual

/-- Objects that stay keep the data. -/
theorem Builds.mono {targets targets' : Heap Target} {lo lo' hi hi' : ℕ}
    (hread : ∀ r, lo ≤ r → r < hi → targets'.read r = targets.read r) (hlo : lo' ≤ lo)
    (hhi : hi ≤ hi') : ∀ {j : Json} {value : TargetValue}, Builds targets lo hi j value →
      Builds targets' lo' hi' j value
  | .null, _, h => h
  | .bool _, _, h => h
  | .int _, _, h => h
  | .float _, _, h => h
  | .str _, _, h => h
  | .arr _, _, ⟨r, items, hvalue, hge, hlt, hcell, hitems⟩ =>
    ⟨r, items, hvalue, by omega, by omega, by rw [hread r hge hlt, hcell],
      BuildsItems.mono hread hlo hhi hitems⟩
  | .obj _, _, ⟨r, members, hvalue, hge, hlt, hcell, hmembers⟩ =>
    ⟨r, members, hvalue, by omega, by omega, by rw [hread r hge hlt, hcell],
      BuildsMembers.mono hread hlo hhi hmembers⟩

theorem BuildsItems.mono {targets targets' : Heap Target} {lo lo' hi hi' : ℕ}
    (hread : ∀ r, lo ≤ r → r < hi → targets'.read r = targets.read r) (hlo : lo' ≤ lo)
    (hhi : hi ≤ hi') : ∀ {js : List Json} {items : List TargetValue},
      BuildsItems targets lo hi js items → BuildsItems targets' lo' hi' js items
  | [], _, h => h
  | _ :: _, _, ⟨item, rest, hitems, hitem, hrest⟩ =>
    ⟨item, rest, hitems, Builds.mono hread hlo hhi hitem, BuildsItems.mono hread hlo hhi hrest⟩

theorem BuildsMembers.mono {targets targets' : Heap Target} {lo lo' hi hi' : ℕ}
    (hread : ∀ r, lo ≤ r → r < hi → targets'.read r = targets.read r) (hlo : lo' ≤ lo)
    (hhi : hi ≤ hi') : ∀ {js : List (String × Json)} {members : List (String × TargetValue)},
      BuildsMembers targets lo hi js members → BuildsMembers targets' lo' hi' js members
  | [], _, h => h
  | (_, _) :: _, _, ⟨item, rest, hmembers, hitem, hrest⟩ =>
    ⟨item, rest, hmembers, Builds.mono hread hlo hhi hitem,
      BuildsMembers.mono hread hlo hhi hrest⟩

end

theorem buildsItems_append {targets : Heap Target} {lo hi : ℕ} {js js' : List Json}
    {items items' : List TargetValue} (h : BuildsItems targets lo hi js items)
    (h' : BuildsItems targets lo hi js' items') :
    BuildsItems targets lo hi (js ++ js') (items ++ items') := by
  induction js generalizing items with
  | nil =>
    cases h
    exact h'
  | cons j js ih =>
    obtain ⟨item, rest, rfl, hitem, hrest⟩ := h
    exact ⟨item, rest ++ items', rfl, hitem, ih hrest⟩

theorem buildsMembers_append {targets : Heap Target} {lo hi : ℕ} {js js' : List (String × Json)}
    {members members' : List (String × TargetValue)} (h : BuildsMembers targets lo hi js members)
    (h' : BuildsMembers targets lo hi js' members') :
    BuildsMembers targets lo hi (js ++ js') (members ++ members') := by
  induction js generalizing members with
  | nil =>
    cases h
    exact h'
  | cons entry js ih =>
    obtain ⟨key, j⟩ := entry
    obtain ⟨item, rest, rfl, hitem, hrest⟩ := h
    exact ⟨item, rest ++ members', rfl, hitem, ih hrest⟩

variable {item : TargetValue} {value : ScriptValue}

theorem builds_scalar (h : value.scalar? = some item) (targets : Heap Target) (lo hi : ℕ) :
    ∃ j, value.data? = some j ∧ Builds targets lo hi j item := by
  cases value <;> cases h <;> exact ⟨_, rfl, rfl⟩

/-! ## Assignments -/

/-- The new object that a destination is in. -/
def SnapshotDestination.target? : SnapshotDestination → Option ℕ
  | .root => none
  | .array target _ => some target
  | .object target _ => some target

variable {destination : SnapshotDestination} {item : TargetValue} {output : Output} {r : ℕ}

@[simp] theorem length_assign (destination : Option SnapshotDestination) (item : TargetValue)
    (output : Output) :
    (assign destination item output).targets.cells.length = output.targets.cells.length := by
  unfold assign
  split
  · rfl
  · rfl
  · split <;> simp
  · split <;> simp

theorem root_assign (destination : SnapshotDestination) (item : TargetValue) (output : Output) :
    (assign (some destination) item output).root =
      match destination with
      | .root => some item
      | _ => output.root := by
  unfold assign
  split
  · contradiction
  · rename_i h
    cases h
    rfl
  · rename_i h
    cases h
    split <;> rfl
  · rename_i h
    cases h
    split <;> rfl

/-- Only the object that a destination is in changes. -/
theorem read_assign_of_ne (h : ∀ t, destination.target? = some t → r ≠ t) :
    (assign (some destination) item output).targets.read r = output.targets.read r := by
  cases destination with
  | root => rfl
  | array target index =>
    have hne := h target rfl
    simp only [assign]
    split
    · exact Heap.read_write_of_ne hne
    · rfl
  | object target key =>
    have hne := h target rfl
    simp only [assign]
    split
    · exact Heap.read_write_of_ne hne
    · rfl

theorem read_assign_congr {output' : Output} (h : output'.targets.read r = output.targets.read r) :
    (assign (some destination) item output').targets.read r =
      (assign (some destination) item output).targets.read r := by
  by_cases ht : destination.target? = some r
  · cases destination with
    | root => cases ht
    | array target index =>
      cases ht
      simp only [assign, h]
      split
      · rename_i items hread
        dsimp only
        rw [Heap.read_write_self (Heap.lt_of_read hread),
          Heap.read_write_self (Heap.lt_of_read (h.trans hread))]
      · exact h
    | object target key =>
      cases ht
      simp only [assign, h]
      split
      · rename_i members hread
        dsimp only
        rw [Heap.read_write_self (Heap.lt_of_read hread),
          Heap.read_write_self (Heap.lt_of_read (h.trans hread))]
      · exact h
  · have hne : ∀ t, destination.target? = some t → r ≠ t := by
      intro t heq hr
      exact ht (hr ▸ heq)
    rw [read_assign_of_ne hne, read_assign_of_ne hne, h]

/-! ## What a copy changes -/

/-- The copy of a value with this data is at its destination, in new objects, and nothing else was
touched. -/
structure Delivered (destination : SnapshotDestination) (j : Json) (item : TargetValue)
    (before after : Output) : Prop where
  root : after.root = (assign (some destination) item before).root
  old : ∀ r < before.targets.cells.length,
    after.targets.read r = (assign (some destination) item before).targets.read r
  grown : before.targets.cells.length ≤ after.targets.cells.length
  built : Builds after.targets before.targets.cells.length after.targets.cells.length j item

/-- A new object is being filled, and nothing before it was touched. -/
structure Filling (t : ℕ) (cell : Target) (before after : Output) : Prop where
  root : after.root = before.root
  old : ∀ r < t, after.targets.read r = before.targets.read r
  cell : after.targets.read t = some cell

variable {before after : Output} {cell : Target}

theorem Filling.lt {t : ℕ} (h : Filling t cell before after) : t < after.targets.cells.length :=
  Heap.lt_of_read h.cell

/-- A copy delivered into the object that is being filled. -/
theorem Filling.deliver {t : ℕ} {cell' : Target} {j : Json} (h : Filling t cell before output)
    (ht : destination.target? = some t) (hd : Delivered destination j item output after)
    (hcell : (assign (some destination) item output).targets.read t = some cell') :
    Filling t cell' before after where
  root := by
    rw [hd.root, root_assign, ← h.root]
    cases destination with
    | root => cases ht
    | _ => rfl
  old r hr := by
    have hne : ∀ t', destination.target? = some t' → r ≠ t' := by
      intro t' ht'
      rw [ht] at ht'
      cases ht'
      exact Nat.ne_of_lt hr
    rw [hd.old r (Nat.lt_trans hr h.lt), read_assign_of_ne hne, h.old r hr]
  cell := by rw [hd.old t h.lt, hcell]

/-- What was built behind the object of the destination stays. -/
theorem Delivered.keeps {t : ℕ} {j : Json} (hd : Delivered destination j item output after)
    (ht : destination.target? = some t) (r : ℕ) (hlo : t + 1 ≤ r)
    (hhi : r < output.targets.cells.length) : after.targets.read r = output.targets.read r := by
  have hne : ∀ t', destination.target? = some t' → r ≠ t' := by
    intro t' ht'
    rw [ht] at ht'
    cases ht'
    omega
  rw [hd.old r hhi, read_assign_of_ne hne]

theorem Filling.builds {t : ℕ} {j : Json} (h : Filling t cell before output)
    (hd : Delivered destination j item output after) :
    Builds after.targets (t + 1) after.targets.cells.length j item :=
  hd.built.mono (fun _ _ _ => rfl) h.lt (Nat.le_refl _)

theorem setIndex_snoc (built : List TargetValue) (item : TargetValue) :
    setIndex (built.map some) built.length item = (built ++ [item]).map some := by
  simp [setIndex]

theorem filling_created (cell : Target)
    (hdest : ∀ t, destination.target? = some t → t < before.targets.cells.length) :
    Filling before.targets.cells.length cell
      (createTarget true (some destination) cell before).2
      (createTarget true (some destination) cell before).2 where
  root := rfl
  old _ _ := rfl
  cell := by
    have hne : ∀ t, destination.target? = some t → before.targets.cells.length ≠ t := by
      intro t ht
      exact (Nat.ne_of_lt (hdest t ht)).symm
    show (assign (some destination) _ _).targets.read before.targets.cells.length = some cell
    rw [read_assign_of_ne hne]
    exact Heap.read_alloc_self

/-- A filled object is the copy of the value that it was made for. -/
theorem delivered_of_filling {filled : Target} {j : Json}
    (h : Filling before.targets.cells.length filled
      (createTarget true (some destination) cell before).2 after)
    (hbuilt : Builds after.targets before.targets.cells.length after.targets.cells.length j
      (.target before.targets.cells.length)) :
    Delivered destination j (.target before.targets.cells.length) before after where
  root := by
    rw [h.root]
    show (assign (some destination) _ _).root = _
    rw [root_assign, root_assign]
    cases destination <;> rfl
  old r hr := by
    rw [h.old r hr]
    show (assign (some destination) _ _).targets.read r = _
    exact read_assign_congr (Heap.read_alloc hr)
  grown := Nat.le_of_lt h.lt
  built := hbuilt

/-! ## The descent -/

/-- Objects that a walk is below, with this many that it may still enter. -/
structure Descent (source : Heap ScriptObject) (depth : ℕ) (ancestors : List ℕ) : Prop where
  nodup : ancestors.Nodup
  valid : ∀ r ∈ ancestors, r < source.cells.length
  deep : source.cells.length ≤ ancestors.length + depth

variable {source : Heap ScriptObject} {depth : ℕ} {ancestors : List ℕ}

theorem descent_nil (source : Heap ScriptObject) : Descent source source.cells.length [] where
  nodup := List.nodup_nil
  valid := List.forall_mem_nil _
  deep := by simp

theorem Descent.push (h : Descent source (depth + 1) ancestors) (hr : r ∉ ancestors)
    (hlt : r < source.cells.length) : Descent source depth (r :: ancestors) where
  nodup := List.nodup_cons.mpr ⟨hr, h.nodup⟩
  valid := List.forall_mem_cons.mpr ⟨hlt, h.valid⟩
  deep := by
    have hdeep := h.deep
    rw [List.length_cons]
    omega

/-- At the bottom every object is an ancestor. -/
theorem Descent.mem (h : Descent source 0 ancestors) (hlt : r < source.cells.length) :
    r ∈ ancestors := by
  have hsub : ancestors ⊆ List.range source.cells.length :=
    fun q hq => List.mem_range.mpr (h.valid q hq)
  have hperm : ancestors.Perm (List.range source.cells.length) := by
    refine (h.nodup.subperm hsub).perm_of_length_le ?_
    rw [List.length_range]
    exact h.deep
  exact hperm.mem_iff.mpr (List.mem_range.mpr hlt)

/-! ## The loop as the recursion -/

/-- The loop passes a value as it is read: its copy is delivered, or the walk is refused. -/
structure Passes (source : Heap ScriptObject) (value : ScriptValue)
    (destination : SnapshotDestination) (ancestors : List ℕ) (result : Option Json) : Prop where
  delivered : ∀ (output : Output) (rest : List JsonWalkTask),
    (∀ t, destination.target? = some t → t < output.targets.cells.length) →
    ∀ j, result = some j → ∃ item after, Delivered destination j item output after ∧
      Reaches source true ⟨.visit value (some destination) :: rest, ancestors, output⟩
        ⟨rest, ancestors, after⟩
  refused : ∀ (output : Output) (rest : List JsonWalkTask),
    (∀ t, destination.target? = some t → t < output.targets.cells.length) →
    result = none →
      Refuses source true ⟨.visit value (some destination) :: rest, ancestors, output⟩

/-- The loop passes every value below some objects. -/
def PassesAll (source : Heap ScriptObject) (depth : ℕ) (ancestors : List ℕ) : Prop :=
  ∀ value destination, Passes source value destination ancestors
    (readTree source depth ancestors value)

theorem itemTasks_succ (r : ℕ) (target : Option ℕ) (index count : ℕ) :
    itemTasks r target index (count + 1) =
      .arrayItem r index target :: itemTasks r target (index + 1) count := rfl

theorem memberTasks_cons (r : ℕ) (target : Option ℕ) (key : String) (keys : List String) :
    memberTasks r target (key :: keys) =
      .objectProperty r key target :: memberTasks r target keys := rfl

section Array

variable {items : List (Option ScriptValue)} {extraKeys : ℕ} {plain : Bool} {t : ℕ}
  {before : Output}

variable (ancestors t) in
/-- One item of an array is visited for its place in the copy. -/
theorem reaches_item (hread : source.read r = some (.array items extraKeys plain)) {index : ℕ}
    (hitem : items[index]? = some (some value)) (rest : List JsonWalkTask) (output : Output) :
    Reaches source true ⟨.arrayItem r index (some t) :: rest, ancestors, output⟩
      ⟨.visit value (some (.array t index)) :: rest, ancestors, output⟩ := by
  apply reaches_of_step
  simp [step, hread, hitem]

theorem refuses_hole (hread : source.read r = some (.array items extraKeys plain)) {index : ℕ}
    (hitem : items[index]? = some none) (rest : List JsonWalkTask) (output : Output) :
    Refuses source true ⟨.arrayItem r index (some t) :: rest, ancestors, output⟩ := by
  apply refuses_of_step
  simp [step, hread, hitem]

theorem items_spec (hread : source.read r = some (.array items extraKeys plain))
    (hall : PassesAll source depth ancestors) (rest : List JsonWalkTask) :
    ∀ (left : List (Option ScriptValue)) (built : List TargetValue) (js : List Json)
      (output : Output), items.drop built.length = left →
      Filling t (.array (built.map some)) before output →
      BuildsItems output.targets (t + 1) output.targets.cells.length js built →
      match left.mapM (fun (item : Option ScriptValue) =>
        item.bind (readTree source depth ancestors)) with
      | some more => ∃ built' after, Filling t (.array (built'.map some)) before after ∧
          BuildsItems after.targets (t + 1) after.targets.cells.length (js ++ more) built' ∧
          Reaches source true
            ⟨itemTasks r (some t) built.length left.length ++ rest, ancestors, output⟩
            ⟨rest, ancestors, after⟩
      | none => Refuses source true
          ⟨itemTasks r (some t) built.length left.length ++ rest, ancestors, output⟩ := by
  intro left
  induction left with
  | nil =>
    intro built js output _ hfill hbuilt
    exact ⟨built, output, hfill, by simpa using hbuilt, Reaches.refl _⟩
  | cons item left ih =>
    intro built js output hdrop hfill hbuilt
    have hitem : items[built.length]? = some item := by
      rw [← List.head?_drop, hdrop]
      rfl
    have hdrop' : items.drop (built.length + 1) = left := by
      rw [← List.tail_drop, hdrop]
      rfl
    rw [List.length_cons, itemTasks_succ, List.cons_append, List.mapM_cons]
    cases item with
    | none => exact refuses_hole hread hitem _ _
    | some value =>
      have hstep := reaches_item ancestors t hread hitem
        (itemTasks r (some t) (built.length + 1) left.length ++ rest) output
      have hpass := hall value (.array t built.length)
      have hdest : ∀ t', (SnapshotDestination.array t built.length).target? = some t' →
          t' < output.targets.cells.length := by
        intro t' ht'
        cases ht'
        exact hfill.lt
      cases hvalue : readTree source depth ancestors value with
      | none =>
        have hrefused := hpass.refused output
          (itemTasks r (some t) (built.length + 1) left.length ++ rest) hdest hvalue
        simpa [hvalue] using hstep.refuses hrefused
      | some j =>
        obtain ⟨new, mid, hd, hreach⟩ := hpass.delivered output
          (itemTasks r (some t) (built.length + 1) left.length ++ rest) hdest j hvalue
        have hcell : (assign (some (.array t built.length)) new output).targets.read t =
            some (.array ((built ++ [new]).map some)) := by
          simp only [assign, hfill.cell]
          rw [Heap.read_write_self hfill.lt, setIndex_snoc]
        have hfill' := hfill.deliver rfl hd hcell
        have hkept := hbuilt.mono (hd.keeps rfl) (Nat.le_refl _) hd.grown
        have hone : BuildsItems mid.targets (t + 1) mid.targets.cells.length [j] [new] :=
          ⟨new, [], rfl, hfill.builds hd, rfl⟩
        have hbuilt' := buildsItems_append hkept hone
        have hlength : (built ++ [new]).length = built.length + 1 := by simp
        have hrest := ih (built ++ [new]) (js ++ [j]) mid (by rw [hlength, hdrop']) hfill'
          hbuilt'
        rw [hlength] at hrest
        simp only [Option.bind_some, hvalue]
        cases hmore : left.mapM (fun (item : Option ScriptValue) =>
            item.bind (readTree source depth ancestors)) with
        | none =>
          rw [hmore] at hrest
          exact hstep.refuses (hreach.refuses hrest)
        | some more =>
          rw [hmore] at hrest
          obtain ⟨built', after, hfilled, hbuilds, hgo⟩ := hrest
          refine ⟨built', after, hfilled, ?_, hstep.trans (hreach.trans hgo)⟩
          simpa using hbuilds

end Array

section Record

variable {members : OwnMembers} {hidden : ℕ} {plain : Bool} {t : ℕ} {before : Output}

variable (ancestors t) in
theorem reaches_member (hread : source.read r = some (.record members hidden plain))
    {entry : String × ScriptValue} (hentry : entry ∈ members.entries) (rest : List JsonWalkTask)
    (output : Output) :
    Reaches source true ⟨.objectProperty r entry.1 (some t) :: rest, ancestors, output⟩
      ⟨.visit entry.2 (some (.object t entry.1)) :: rest, ancestors, output⟩ := by
  have hlookup := (OrderedMap.mem_iff_lookup members.nodup entry.1 entry.2).mp hentry
  apply reaches_of_step
  simp [step, hread, hlookup]

theorem members_spec (hread : source.read r = some (.record members hidden plain))
    (hall : PassesAll source depth ancestors) (rest : List JsonWalkTask) :
    ∀ (left : OrderedMap String ScriptValue) (built : OrderedMap String TargetValue)
      (js : List (String × Json)) (output : Output), (∀ entry ∈ left, entry ∈ members.entries) →
      (OrderedMap.keys built ++ OrderedMap.keys left).Nodup →
      Filling t (.record built) before output →
      BuildsMembers output.targets (t + 1) output.targets.cells.length js built →
      match left.mapM (fun entry =>
        (readTree source depth ancestors entry.2).map (entry.1, ·)) with
      | some more => ∃ built' after, Filling t (.record built') before after ∧
          BuildsMembers after.targets (t + 1) after.targets.cells.length (js ++ more) built' ∧
          Reaches source true
            ⟨memberTasks r (some t) (OrderedMap.keys left) ++ rest, ancestors, output⟩
            ⟨rest, ancestors, after⟩
      | none => Refuses source true
          ⟨memberTasks r (some t) (OrderedMap.keys left) ++ rest, ancestors, output⟩ := by
  intro left
  induction left with
  | nil =>
    intro built js output _ _ hfill hbuilt
    exact ⟨built, output, hfill, by simpa using hbuilt, Reaches.refl _⟩
  | cons entry left ih =>
    intro built js output hmem hkeys hfill hbuilt
    have hstep := reaches_member ancestors t hread (hmem entry List.mem_cons_self)
      (memberTasks r (some t) (OrderedMap.keys left) ++ rest) output
    have hnew : entry.1 ∉ OrderedMap.keys built := by
      intro hold
      exact (List.nodup_append.mp hkeys).2.2 _ hold _ List.mem_cons_self rfl
    have hpass := hall entry.2 (.object t entry.1)
    have hdest : ∀ t', (SnapshotDestination.object t entry.1).target? = some t' →
        t' < output.targets.cells.length := by
      intro t' ht'
      cases ht'
      exact hfill.lt
    rw [OrderedMap.keys_cons, memberTasks_cons, List.cons_append, List.mapM_cons]
    cases hvalue : readTree source depth ancestors entry.2 with
    | none =>
      have hrefused := hpass.refused output
        (memberTasks r (some t) (OrderedMap.keys left) ++ rest) hdest hvalue
      simpa using hstep.refuses hrefused
    | some j =>
      obtain ⟨new, mid, hd, hreach⟩ := hpass.delivered output
        (memberTasks r (some t) (OrderedMap.keys left) ++ rest) hdest j hvalue
      have hcell : (assign (some (.object t entry.1)) new output).targets.read t =
          some (.record (built ++ [(entry.1, new)])) := by
        simp only [assign, hfill.cell]
        rw [Heap.read_write_self hfill.lt, OrderedMap.set_of_not_mem hnew]
      have hfill' := hfill.deliver rfl hd hcell
      have hkept := hbuilt.mono (hd.keeps rfl) (Nat.le_refl _) hd.grown
      have hone : BuildsMembers mid.targets (t + 1) mid.targets.cells.length [(entry.1, j)]
          [(entry.1, new)] := ⟨new, [], rfl, hfill.builds hd, rfl⟩
      have hbuilt' := buildsMembers_append hkept hone
      have hkeys' : (OrderedMap.keys (built ++ [(entry.1, new)]) ++
          OrderedMap.keys left).Nodup := by
        simpa [OrderedMap.keys] using hkeys
      have hrest := ih (built ++ [(entry.1, new)]) (js ++ [(entry.1, j)]) mid
        (fun e he => hmem e (List.mem_cons_of_mem _ he)) hkeys' hfill' hbuilt'
      simp only [Option.map_some]
      cases hmore : left.mapM (fun entry =>
          (readTree source depth ancestors entry.2).map (entry.1, ·)) with
      | none =>
        rw [hmore] at hrest
        exact hstep.refuses (hreach.refuses hrest)
      | some more =>
        rw [hmore] at hrest
        obtain ⟨built', after, hfilled, hbuilds, hgo⟩ := hrest
        refine ⟨built', after, hfilled, ?_, hstep.trans (hreach.trans hgo)⟩
        simpa using hbuilds

end Record

/-! ## Visits -/

theorem scalar_none_iff (value : ScriptValue) : value.scalar? = none ↔ value.data? = none := by
  cases value <;> simp [ScriptValue.scalar?, ScriptValue.data?]

theorem passes_scalar (hvalue : ∀ r, value ≠ .ref r) (destination : SnapshotDestination)
    (ancestors : List ℕ) :
    Passes source value destination ancestors value.data? where
  delivered output rest _ j hj := by
    cases hscalar : value.scalar? with
    | none =>
      rw [scalar_none_iff, hj] at hscalar
      cases hscalar
    | some item =>
      refine ⟨item, assign (some destination) item output, ⟨rfl, fun _ _ => rfl, ?_, ?_⟩, ?_⟩
      · exact Nat.le_of_eq (length_assign _ _ _).symm
      · obtain ⟨j', hj', hbuilds⟩ := builds_scalar hscalar
          (assign (some destination) item output).targets output.targets.cells.length
          (assign (some destination) item output).targets.cells.length
        rw [hj] at hj'
        cases hj'
        exact hbuilds
      · apply reaches_of_step
        simp [step, hscalar]
  refused output rest _ hnone := by
    apply refuses_of_step
    simp only [step, (scalar_none_iff value).mpr hnone]

theorem step_visit_ref (r : ℕ) (destination : Option SnapshotDestination)
    (rest : List JsonWalkTask) (ancestors : List ℕ) (output : Output) :
    step source true ⟨.visit (.ref r) destination :: rest, ancestors, output⟩ =
      visitObject source true r destination rest
        ⟨.visit (.ref r) destination :: rest, ancestors, output⟩ := rfl

/-- A reference that is not entered is refused. -/
theorem passes_of_refused (h : ∀ destination rest output, visitObject source true r destination rest
      ⟨.visit (.ref r) destination :: rest, ancestors, output⟩ = none)
    (destination : SnapshotDestination) :
    Passes source (.ref r) destination ancestors none where
  delivered _ _ _ _ hj := by cases hj
  refused output rest _ _ := refuses_of_step (by rw [step_visit_ref, h])

theorem reaches_leave (rest : List JsonWalkTask) (output : Output) :
    Reaches source true ⟨.leave r :: rest, r :: ancestors, output⟩ ⟨rest, ancestors, output⟩ := by
  apply reaches_of_step
  simp [step]

theorem passes_array {items : List (Option ScriptValue)} {extraKeys : ℕ} {plain : Bool}
    (hread : source.read r = some (.array items extraKeys plain)) (hr : r ∉ ancestors)
    (hplain : plain ∧ (items.filter Option.isSome).length + 1 + extraKeys = items.length + 1)
    (hall : PassesAll source depth (r :: ancestors)) (destination : SnapshotDestination) :
    Passes source (.ref r) destination ancestors
      ((items.mapM fun (item : Option ScriptValue) =>
        item.bind (readTree source depth (r :: ancestors))).map .arr) := by
  have hstart : ∀ output rest, Reaches source true
      ⟨.visit (.ref r) (some destination) :: rest, ancestors, output⟩
      ⟨itemTasks r (some output.targets.cells.length) 0 items.length ++ .leave r :: rest,
        r :: ancestors, (createTarget true (some destination) (.array []) output).2⟩ := by
    intro output rest
    apply reaches_of_step
    rw [step_visit_ref, visitObject, if_neg hr, hread]
    exact if_pos hplain
  have hspec := fun (output : Output) (rest : List JsonWalkTask)
      (hdest : ∀ t, destination.target? = some t → t < output.targets.cells.length) =>
    items_spec hread hall (.leave r :: rest) items [] [] _ rfl
      (filling_created (.array []) hdest) rfl
  constructor
  · intro output rest hdest j hj
    obtain ⟨js, hjs, rfl⟩ := Option.map_eq_some_iff.mp hj
    have hrun := hspec output rest hdest
    rw [hjs] at hrun
    obtain ⟨built, after, hfilled, hbuilds, hreach⟩ := hrun
    refine ⟨_, after, delivered_of_filling hfilled ?_,
      (hstart output rest).trans (hreach.trans (reaches_leave rest after))⟩
    exact ⟨_, built, rfl, Nat.le_refl _, hfilled.lt, hfilled.cell,
      hbuilds.mono (fun _ _ _ => rfl) (Nat.le_succ _) (Nat.le_refl _)⟩
  · intro output rest hdest hnone
    have hrun := hspec output rest hdest
    rw [Option.map_eq_none_iff.mp hnone] at hrun
    exact (hstart output rest).refuses hrun

theorem passes_record {members : OwnMembers} {hidden : ℕ} {plain : Bool}
    (hread : source.read r = some (.record members hidden plain)) (hr : r ∉ ancestors)
    (hplain : plain ∧ hidden = 0) (hall : PassesAll source depth (r :: ancestors))
    (destination : SnapshotDestination) :
    Passes source (.ref r) destination ancestors
      ((members.entries.mapM fun entry =>
        (readTree source depth (r :: ancestors) entry.2).map (entry.1, ·)).map .obj) := by
  have hstart : ∀ output rest, Reaches source true
      ⟨.visit (.ref r) (some destination) :: rest, ancestors, output⟩
      ⟨memberTasks r (some output.targets.cells.length) (OrderedMap.keys members.entries) ++
          .leave r :: rest,
        r :: ancestors, (createTarget true (some destination) (.record []) output).2⟩ := by
    intro output rest
    apply reaches_of_step
    rw [step_visit_ref, visitObject, if_neg hr, hread]
    exact if_pos hplain
  have hspec := fun (output : Output) (rest : List JsonWalkTask)
      (hdest : ∀ t, destination.target? = some t → t < output.targets.cells.length) =>
    members_spec hread hall (.leave r :: rest) members.entries [] [] _ (fun _ h => h)
      members.nodup (filling_created (.record []) hdest) rfl
  constructor
  · intro output rest hdest j hj
    obtain ⟨js, hjs, rfl⟩ := Option.map_eq_some_iff.mp hj
    have hrun := hspec output rest hdest
    rw [hjs] at hrun
    obtain ⟨built, after, hfilled, hbuilds, hreach⟩ := hrun
    refine ⟨_, after, delivered_of_filling hfilled ?_,
      (hstart output rest).trans (hreach.trans (reaches_leave rest after))⟩
    exact ⟨_, built, rfl, Nat.le_refl _, hfilled.lt, hfilled.cell,
      hbuilds.mono (fun _ _ _ => rfl) (Nat.le_succ _) (Nat.le_refl _)⟩
  · intro output rest hdest hnone
    have hrun := hspec output rest hdest
    rw [Option.map_eq_none_iff.mp hnone] at hrun
    exact (hstart output rest).refuses hrun

theorem passes_ref (h : Descent source (depth + 1) ancestors)
    (hall : ∀ r, Descent source depth (r :: ancestors) → PassesAll source depth (r :: ancestors))
    (r : ℕ) (destination : SnapshotDestination) :
    Passes source (.ref r) destination ancestors
      (readTree source (depth + 1) ancestors (.ref r)) := by
  unfold readTree
  dsimp only
  by_cases hr : r ∈ ancestors
  · rw [if_pos hr]
    exact passes_of_refused (fun _ _ _ => if_pos hr) destination
  · rw [if_neg hr]
    cases hread : source.read r with
    | none =>
      apply passes_of_refused
      intro destination rest output
      simp [visitObject, hread]
    | some object =>
      have hbelow := hall r (h.push hr (Heap.lt_of_read hread))
      cases object with
      | array items extraKeys plain =>
        dsimp only
        split_ifs with hplain
        · exact passes_array hread hr hplain hbelow destination
        · apply passes_of_refused
          intro destination rest output
          simp only [visitObject, hread, if_neg hplain, ite_self]
      | record members hidden plain =>
        dsimp only
        split_ifs with hplain
        · exact passes_record hread hr hplain hbelow destination
        · apply passes_of_refused
          intro destination rest output
          simp only [visitObject, hread, if_neg hplain, ite_self]

/-- The loop passes a value as the recursion reads it, however deep the objects are nested. -/
theorem visit_spec (depth : ℕ) : ∀ ancestors, Descent source depth ancestors →
    PassesAll source depth ancestors := by
  induction depth with
  | zero =>
    intro ancestors h value destination
    cases value with
    | ref r =>
      -- every object is an ancestor here, so a reference is a cycle or dangling
      apply passes_of_refused
      intro destination rest output
      unfold visitObject
      by_cases hr : r ∈ ancestors
      · exact if_pos hr
      · have hread : source.read r = none := by
          cases hread : source.read r with
          | none => rfl
          | some object => exact absurd (h.mem (Heap.lt_of_read hread)) hr
        simp [hread]
    | _ => exact passes_scalar (by simp) destination ancestors
  | succ depth ih =>
    intro ancestors h value destination
    cases value with
    | ref r => exact passes_ref h (fun r hr => ih (r :: ancestors) hr) r destination
    | _ => exact passes_scalar (by simp) destination ancestors

end JsonWalk

end TianmaCoder
