import Mathlib.Tactic.Tauto
import TianmaCoder.Storage.PerRecord

/-!
# The file operations of a bootstrap

Each document is put over whatever file is at its path, after the directories above it are made. All
are written exactly when nothing stands in their way, on the disk or among themselves; a bootstrap
that stops has written the first of them and may leave a temporary file.

## Main definitions

* `PerRecord.Unobstructed` — nothing stands in the way of some documents.
* `PerRecord.Grown` — what operations for some documents may have changed.

## Main results

* `PerRecord.execAll_iff` — the operations are all done for documents that are unobstructed.
* `PerRecord.grown_take` — the disk after some of the operations.
-/

namespace TianmaCoder

namespace PerRecord

variable {disk disk' disk'' : Disk FileText} {path q : List String} {temp : String} {text : FileText}

/-! ## One document -/

/-- The file system accepts a document at the path. -/
structure Clear (disk : Disk FileText) (path : List String) : Prop where
  valid : isPath path = true
  above : ∀ q, q <+: path.dropLast → disk.isFile q = false
  free : disk.isDirectory path = false

/-- The disk with a document at a path. -/
structure Placed (path : List String) (text : FileText) (disk disk' : Disk FileText) : Prop where
  read : ∀ q, disk'.read q = if q = path then some (.file text)
    else if q <+: path.dropLast ∧ disk.read q = none then some .directory else disk.read q

theorem isPath_append {path' : List String} :
    isPath (path ++ path') = true ↔ isPath path = true ∧ isPath path' = true := by
  simp [isPath]

theorem isPath_dropLast (h : isPath path = true) : isPath path.dropLast = true := by
  unfold isPath at h ⊢
  rw [List.all_eq_true] at h ⊢
  intro name hname
  exact h name (List.dropLast_subset _ hname)

theorem exec_makeDirectory (hvalid : isPath path = true) :
    FileOperation.exec disk (.makeDirectory path) = disk.makeDirs path := if_pos hvalid

theorem not_prefix_dropLast (hpath : path ≠ []) : ¬path <+: path.dropLast := by
  intro h
  have hlength := h.length_le
  have hpos : 0 < path.length := List.length_pos_iff.mpr hpath
  rw [List.length_dropLast] at hlength
  omega

/-- No path with the name is on the disk. -/
def Unused (disk : Disk FileText) (name : String) : Prop := ∀ q, name ∈ q → disk.read q = none

/-- The disk with the directories for a document, and this at the path of its temporary file. -/
def Prepared (path : List String) (temp : String) (node : Option (DiskNode FileText))
    (disk disk' : Disk FileText) : Prop :=
  ∀ q, disk'.read q = if q = path.dropLast ++ [temp] then node
    else if q <+: path.dropLast ∧ disk.read q = none then some .directory else disk.read q

theorem not_prefix_temp (path : List String) (temp : String) :
    ¬path.dropLast ++ [temp] <+: path.dropLast := by
  intro h
  have hlength := h.length_le
  rw [List.length_append, List.length_singleton] at hlength
  omega

theorem path_ne_temp (htemp : temp ∉ path) : path ≠ path.dropLast ++ [temp] := by
  intro heq
  apply htemp
  rw [heq]
  simp

theorem prepared_make (hclear : Clear disk path) (hunused : Unused disk temp) :
    ∃ disk', FileOperation.exec disk (.makeDirectory path.dropLast) = some disk' ∧
      Prepared path temp none disk disk' := by
  obtain ⟨made, hmade⟩ : ∃ made, disk.makeDirs path.dropLast = some made :=
    ⟨_, Disk.makeDirs_eq_some_iff.mpr ⟨hclear.above, rfl⟩⟩
  refine ⟨made, (exec_makeDirectory (isPath_dropLast hclear.valid)).trans hmade, fun q => ?_⟩
  rw [Disk.read_of_makeDirs hmade]
  by_cases hq : q = path.dropLast ++ [temp]
  · rw [if_pos hq, hq, if_neg (fun h => not_prefix_temp path temp h.1)]
    exact hunused _ (by simp)
  · rw [if_neg hq]

variable {node : Option (DiskNode FileText)}

/-- The directory of the document is there. -/
theorem Prepared.parent (h : Prepared path temp node disk disk') (hclear : Clear disk path) :
    disk'.isDirectory path.dropLast = true := by
  have hne : path.dropLast ≠ path.dropLast ++ [temp] := by simp
  have hfile := hclear.above path.dropLast (List.prefix_refl _)
  rw [Disk.isDirectory_iff, h, if_neg hne]
  cases hnode : disk.read path.dropLast with
  | none => simp
  | some found =>
    cases found with
    | directory => simp
    | file text =>
      have htrue : disk.isFile path.dropLast = true := Disk.isFile_iff.mpr ⟨text, hnode⟩
      rw [htrue] at hfile
      cases hfile

theorem Prepared.write (h : Prepared path temp node disk disk') (text : FileText) :
    Prepared path temp (some (.file text)) disk
      (disk'.write (path.dropLast ++ [temp]) (.file text)) := by
  intro q
  rw [Disk.read_write, h]
  split_ifs <;> rfl

theorem prepared_open (h : Prepared path temp none disk disk') (hclear : Clear disk path)
    (hvalid : isPath [temp] = true) :
    ∃ disk'', FileOperation.exec disk' (.openTemp (path.dropLast ++ [temp])) = some disk'' ∧
      Prepared path temp (some (.file [])) disk disk'' := by
  have hpath : isPath (path.dropLast ++ [temp]) = true :=
    isPath_append.mpr ⟨isPath_dropLast hclear.valid, hvalid⟩
  have hparent : disk'.isDirectory (path.dropLast ++ [temp]).dropLast = true := by
    rw [List.dropLast_concat]
    exact h.parent hclear
  have hnone : disk'.read (path.dropLast ++ [temp]) = none := by rw [h, if_pos rfl]
  refine ⟨_, ?_, h.write []⟩
  rw [FileOperation.exec, if_pos hpath]
  exact Disk.create_eq_some_iff.mpr ⟨hnone, hparent, rfl⟩

theorem prepared_write {text' : FileText} (h : Prepared path temp (some (.file text')) disk disk')
    (text : FileText) :
    ∃ disk'', FileOperation.exec disk' (.writeTemp (path.dropLast ++ [temp]) text) = some disk'' ∧
      Prepared path temp (some (.file text)) disk disk'' := by
  have hfile : disk'.isFile (path.dropLast ++ [temp]) = true :=
    Disk.isFile_iff.mpr ⟨text', by rw [h, if_pos rfl]⟩
  exact ⟨_, Disk.replace_eq_some_iff.mpr ⟨hfile, rfl⟩, h.write text⟩

theorem placed_publish (h : Prepared path temp (some (.file text)) disk disk')
    (hclear : Clear disk path) (hpath : path ≠ []) (hunused : Unused disk temp)
    (htemp : temp ∉ path) :
    ∃ disk'', FileOperation.exec disk' (.publish (path.dropLast ++ [temp]) path) = some disk'' ∧
      Placed path text disk disk'' := by
  have hne := path_ne_temp htemp
  have hfree : disk'.isDirectory path = false := by
    have hfree := hclear.free
    unfold Disk.isDirectory at hfree ⊢
    rw [h, if_neg hne, if_neg (fun hq => not_prefix_dropLast hpath hq.1)]
    exact hfree
  refine ⟨(disk'.remove (path.dropLast ++ [temp])).write path (.file text), ?_, ⟨fun q => ?_⟩⟩
  · rw [FileOperation.exec, if_pos hclear.valid]
    exact Disk.rename_eq_some_iff.mpr
      ⟨text, by rw [h, if_pos rfl], hfree, h.parent hclear, rfl⟩
  · rw [Disk.read_write, Disk.read_remove, h]
    by_cases hq : q = path
    · rw [if_pos hq, if_pos hq]
    · rw [if_neg hq, if_neg hq]
      by_cases hqt : q = path.dropLast ++ [temp]
      · rw [if_pos hqt, hqt, if_neg (fun h => not_prefix_temp path temp h.1)]
        exact (hunused _ (by simp)).symm
      · rw [if_neg hqt, if_neg hqt]

theorem execAll_cons {operation : FileOperation} {operations : List FileOperation}
    (h : FileOperation.exec disk operation = some disk') :
    execAll disk (operation :: operations) = execAll disk' operations := by
  rw [execAll, h]

/-- What some of the operations for a document leave; all four place it. -/
theorem record_take (hclear : Clear disk path) (hpath : path ≠ []) (hunused : Unused disk temp)
    (hvalid : isPath [temp] = true) (htemp : temp ∉ path) (text : FileText) (n : ℕ) :
    ∃ disk', execAll disk ((recordOperations path temp text).take n) = (disk', true) ∧
      (n = 0 ∧ disk' = disk ∨ 0 < n ∧ n < 4 ∧ (∃ node, Prepared path temp node disk disk') ∨
        4 ≤ n ∧ Placed path text disk disk') := by
  obtain ⟨made, hmake, hmade⟩ := prepared_make hclear hunused
  obtain ⟨opened, hopen, hopened⟩ := prepared_open hmade hclear hvalid
  obtain ⟨written, hwrite, hwritten⟩ := prepared_write hopened text
  obtain ⟨placed, hpublish, hplaced⟩ := placed_publish hwritten hclear hpath hunused htemp
  match n with
  | 0 => exact ⟨disk, rfl, .inl ⟨rfl, rfl⟩⟩
  | 1 => exact ⟨made, execAll_cons hmake, .inr (.inl ⟨by omega, by omega, _, hmade⟩)⟩
  | 2 =>
    refine ⟨opened, ?_, .inr (.inl ⟨by omega, by omega, _, hopened⟩)⟩
    exact (execAll_cons hmake).trans (execAll_cons hopen)
  | 3 =>
    refine ⟨written, ?_, .inr (.inl ⟨by omega, by omega, _, hwritten⟩)⟩
    exact (execAll_cons hmake).trans ((execAll_cons hopen).trans (execAll_cons hwrite))
  | n + 4 =>
    refine ⟨placed, ?_, .inr (.inr ⟨by omega, hplaced⟩)⟩
    rw [List.take_of_length_le (by simp [recordOperations])]
    exact (execAll_cons hmake).trans ((execAll_cons hopen).trans
      ((execAll_cons hwrite).trans (execAll_cons hpublish)))

theorem clear_of_record (hpath : path ≠ []) (htemp : temp ∉ path)
    (h : execAll disk (recordOperations path temp text) = (disk', true)) : Clear disk path := by
  unfold recordOperations at h
  cases hmade : FileOperation.exec disk (.makeDirectory path.dropLast) with
  | none => simp [execAll, hmade] at h
  | some made =>
    cases hopen : FileOperation.exec made (.openTemp (path.dropLast ++ [temp])) with
    | none => simp [execAll, hmade, hopen] at h
    | some opened =>
      cases hwrite : FileOperation.exec opened
          (.writeTemp (path.dropLast ++ [temp]) text) with
      | none => simp [execAll, hmade, hopen, hwrite] at h
      | some written =>
        cases hpublish : FileOperation.exec written
            (.publish (path.dropLast ++ [temp]) path) with
        | none => simp [execAll, hmade, hopen, hwrite, hpublish] at h
        | some last =>
          simp only [FileOperation.exec] at hmade hopen hwrite hpublish
          split at hmade
          · split at hopen
            · split at hpublish
              · next hvalid =>
                  obtain ⟨hfiles, -⟩ := Disk.makeDirs_eq_some_iff.mp hmade
                  have hmadeRead := Disk.read_of_makeDirs hmade path
                  rw [if_neg (fun h => not_prefix_dropLast hpath h.1)] at hmadeRead
                  obtain ⟨-, -, rfl⟩ := Disk.create_eq_some_iff.mp hopen
                  obtain ⟨-, rfl⟩ := Disk.replace_eq_some_iff.mp hwrite
                  obtain ⟨_, -, hfree, -⟩ := Disk.rename_eq_some_iff.mp hpublish
                  have hne : path ≠ path.dropLast ++ [temp] := by
                    intro heq
                    apply htemp
                    rw [heq]
                    simp
                  refine ⟨hvalid, hfiles, ?_⟩
                  unfold Disk.isDirectory at hfree ⊢
                  rw [Disk.read_write, if_neg hne, Disk.read_write, if_neg hne,
                    hmadeRead] at hfree
                  exact hfree
              · cases hpublish
            · cases hopen
          · cases hmade

/-! ## The documents of a bootstrap -/

/-- Nothing stands in the way of documents at these paths: on the disk, or one above another. -/
structure Unobstructed (disk : Disk FileText) (paths : List (List String)) : Prop where
  clear : ∀ p ∈ paths, Clear disk p
  apart : ∀ p ∈ paths, ∀ q ∈ paths, ¬p <+: q.dropLast

/-- After one document the path of another is as clear as before, unless one is above the other. -/
theorem clear_of_placed {a b : List String} (h : Placed a text disk disk') (ha : Clear disk a)
    (hpath : a ≠ []) : Clear disk' b ↔ Clear disk b ∧ ¬a <+: b.dropLast ∧ ¬b <+: a.dropLast := by
  have hfile : ∀ q, disk'.isFile q = true ↔ q = a ∨ disk.isFile q = true := by
    intro q
    rw [Disk.isFile_iff, Disk.isFile_iff, h.read]
    by_cases hq : q = a
    · simp [hq]
    · by_cases hmade : q <+: a.dropLast ∧ disk.read q = none
      · simp [hq, hmade]
      · rw [if_neg hq, if_neg hmade]
        simp [hq]
  have hdirectory : b ≠ a → (disk'.isDirectory b = true ↔
      b <+: a.dropLast ∨ disk.isDirectory b = true) := by
    intro hne
    rw [Disk.isDirectory_iff, Disk.isDirectory_iff, h.read, if_neg hne]
    by_cases hpre : b <+: a.dropLast
    · cases hnode : disk.read b with
      | none => simp [hpre]
      | some node =>
        cases node with
        | directory => simp
        | file text =>
          have hfalse := ha.above b hpre
          have htrue : disk.isFile b = true := Disk.isFile_iff.mpr ⟨text, hnode⟩
          rw [htrue] at hfalse
          cases hfalse
    · simp [hpre]
  constructor
  · intro hclear
    have habove : ¬a <+: b.dropLast := by
      intro hpre
      have hfalse := hclear.above a hpre
      rw [(hfile a).mpr (.inl rfl)] at hfalse
      cases hfalse
    have hbelow : ¬b <+: a.dropLast := by
      intro hpre
      have hne : b ≠ a := by
        rintro rfl
        exact not_prefix_dropLast hpath hpre
      have hfalse := hclear.free
      rw [(hdirectory hne).mpr (.inl hpre)] at hfalse
      cases hfalse
    refine ⟨⟨hclear.valid, fun q hq => ?_, ?_⟩, habove, hbelow⟩
    · by_contra hqfile
      have htrue : disk'.isFile q = true := (hfile q).mpr (.inr (by simpa using hqfile))
      rw [hclear.above q hq] at htrue
      cases htrue
    · by_cases hne : b = a
      · rw [hne]
        exact ha.free
      · by_contra hdir
        have htrue := (hdirectory hne).mpr (.inr (by simpa using hdir))
        rw [hclear.free] at htrue
        cases htrue
  · rintro ⟨hclear, habove, hbelow⟩
    refine ⟨hclear.valid, fun q hq => ?_, ?_⟩
    · by_contra hqfile
      rcases (hfile q).mp (by simpa using hqfile) with rfl | hqfile
      · exact habove hq
      · rw [hclear.above q hq] at hqfile
        cases hqfile
    · by_cases hne : b = a
      · subst hne
        by_contra hdir
        have hread := Disk.isDirectory_iff.mp (show disk'.isDirectory b = true by simpa using hdir)
        rw [h.read, if_pos rfl] at hread
        cases hread
      · by_contra hdir
        rcases (hdirectory hne).mp (by simpa using hdir) with hpre | hdir
        · exact hbelow hpre
        · rw [hclear.free] at hdir
          cases hdir

/-- Names that were drawn for temporary files of a bootstrap of these documents. -/
structure FreshTemps (disk : Disk FileText) (documents : List RecordDocument)
    (temps : ℕ → String) : Prop where
  unused : ∀ n, Unused disk (temps n)
  outside : ∀ n, ∀ document ∈ documents, temps n ∉ document.path
  valid : ∀ n, isPath [temps n] = true

theorem Placed.unused {name : String} (h : Placed path text disk disk') (hname : name ∉ path)
    (hunused : Unused disk name) : Unused disk' name := by
  intro q hq
  have hne : q ≠ path := by
    rintro rfl
    exact hname hq
  have hpre : ¬q <+: path.dropLast := by
    intro hpre
    exact hname (List.dropLast_subset _ (hpre.subset hq))
  rw [h.read, if_neg hne, if_neg (fun h => hpre h.1)]
  exact hunused q hq

variable {document : RecordDocument} {documents : List RecordDocument}

theorem FreshTemps.placed {temps : ℕ → String} (h : FreshTemps disk (document :: documents) temps)
    (hplaced : Placed document.path text disk disk') : FreshTemps disk' documents temps where
  unused n := hplaced.unused (h.outside n document List.mem_cons_self) (h.unused n)
  outside n d hd := h.outside n d (List.mem_cons_of_mem _ hd)
  valid := h.valid

theorem execAll_append (disk : Disk FileText) (a b : List FileOperation) :
    execAll disk (a ++ b) =
      if (execAll disk a).2 then execAll (execAll disk a).1 b else ((execAll disk a).1, false) := by
  induction a generalizing disk with
  | nil => rfl
  | cons operation a ih =>
    rw [List.cons_append, execAll, execAll]
    cases operation.exec disk with
    | none => rfl
    | some disk' => exact ih disk'

theorem Unobstructed.placed
    (h : Unobstructed disk ((document :: documents).map RecordDocument.path))
    (hpath : document.path ≠ []) (hplaced : Placed document.path text disk disk') :
    Unobstructed disk' (documents.map RecordDocument.path) := by
  rw [List.map_cons] at h
  have hclear := h.clear _ List.mem_cons_self
  constructor
  · intro p hp
    obtain ⟨d, hd, rfl⟩ := List.mem_map.mp hp
    refine (clear_of_placed hplaced hclear hpath).mpr
      ⟨h.clear _ (List.mem_cons_of_mem _ hp), ?_, ?_⟩
    · exact h.apart _ List.mem_cons_self _ (List.mem_cons_of_mem _ hp)
    · exact h.apart _ (List.mem_cons_of_mem _ hp) _ List.mem_cons_self
  · intro p hp q hq
    exact h.apart p (List.mem_cons_of_mem _ hp) q (List.mem_cons_of_mem _ hq)

variable {uuids : ℕ → String}

/-- The documents of a bootstrap that ends were unobstructed. -/
theorem unobstructed_of_execAll {n : ℕ} (hpaths : ∀ d ∈ documents, d.path ≠ [])
    (hfresh : FreshTemps disk documents fun n => tempName (uuids n))
    (h : (execAll disk (documentOperations uuids n documents)).2 = true) :
    Unobstructed disk (documents.map RecordDocument.path) := by
  induction documents generalizing disk n with
  | nil => exact ⟨List.forall_mem_nil _, List.forall_mem_nil _⟩
  | cons document documents ih =>
    rw [documentOperations, execAll_append] at h
    split at h
    · next hdone =>
        have hpath := hpaths document List.mem_cons_self
        have hout := hfresh.outside n document List.mem_cons_self
        have hclear : Clear disk document.path :=
          clear_of_record hpath hout (Prod.ext rfl hdone)
        obtain ⟨placed, hexec, hcases⟩ := record_take hclear hpath (hfresh.unused n)
          (hfresh.valid n) hout document.text 4
        have hplaced : Placed document.path document.text disk placed := by
          rcases hcases with ⟨hzero, -⟩ | ⟨-, hlt, -⟩ | ⟨-, hplaced⟩
          · omega
          · omega
          · exact hplaced
        rw [List.take_of_length_le (by simp [recordOperations])] at hexec
        rw [hexec] at h
        have hrest := ih (fun d hd => hpaths d (List.mem_cons_of_mem _ hd))
          (hfresh.placed hplaced) h
        have hback : ∀ d ∈ documents, Clear disk d.path ∧ ¬document.path <+: d.path.dropLast ∧
            ¬d.path <+: document.path.dropLast := by
          intro d hd
          exact (clear_of_placed hplaced hclear hpath).mp
            (hrest.clear _ (List.mem_map_of_mem hd))
        constructor
        · intro p hp
          rcases List.mem_cons.mp hp with rfl | hp
          · exact hclear
          · obtain ⟨d, hd, rfl⟩ := List.mem_map.mp hp
            exact (hback d hd).1
        · intro p hp q hq
          rcases List.mem_cons.mp hp with rfl | hp
          · rcases List.mem_cons.mp hq with rfl | hq
            · exact not_prefix_dropLast hpath
            · obtain ⟨d, hd, rfl⟩ := List.mem_map.mp hq
              exact (hback d hd).2.1
          · rcases List.mem_cons.mp hq with rfl | hq
            · obtain ⟨d, hd, rfl⟩ := List.mem_map.mp hp
              exact (hback d hd).2.2
            · exact hrest.apart p hp q hq
    · cases h

/-! ## What a bootstrap changes -/

/-- The disk after the first documents are written, the directories of others made, and temporary
files left under drawn names. -/
structure Grown (done documents : List RecordDocument) (drawn : String → Prop)
    (disk disk' : Disk FileText) : Prop where
  read : ∀ q, (∀ name ∈ q, ¬drawn name) → disk'.read q = disk.read q ∨
    (∃ document ∈ done, document.path = q ∧ disk'.read q = some (.file document.text)) ∨
    disk.read q = none ∧ disk'.read q = some .directory ∧
      ∃ document ∈ documents, q <+: document.path.dropLast
  unused : ∀ name, ¬drawn name → Unused disk name →
    (∀ document ∈ documents, name ∉ document.path) → Unused disk' name
  written : ∀ document ∈ done, disk'.isFile document.path = true
  above : ∀ document ∈ done, ∀ q, q <+: document.path.dropLast → disk'.isDirectory q = true
  exact : (documents.map RecordDocument.path).Nodup →
    ∀ document ∈ done, disk'.read document.path = some (.file document.text)

variable {done documents : List RecordDocument} {drawn : String → Prop}

theorem Grown.refl (documents : List RecordDocument) (drawn : String → Prop)
    (disk : Disk FileText) : Grown [] documents drawn disk disk where
  read _ _ := .inl rfl
  unused _ _ h _ := h
  written := List.forall_mem_nil _
  above := List.forall_mem_nil _
  exact _ := List.forall_mem_nil _

/-- Directories and a temporary file for the first document. -/
theorem Prepared.grown (h : Prepared document.path temp node disk disk') (hdrawn : drawn temp) :
    Grown [] (document :: documents) drawn disk disk' where
  read q hq := by
    have hne : q ≠ document.path.dropLast ++ [temp] := by
      rintro rfl
      exact hq temp (by simp) hdrawn
    rw [h, if_neg hne]
    by_cases hmade : q <+: document.path.dropLast ∧ disk.read q = none
    · rw [if_pos hmade]
      exact .inr (.inr ⟨hmade.2, rfl, document, List.mem_cons_self, hmade.1⟩)
    · rw [if_neg hmade]
      exact .inl rfl
  unused name hname hunused hout q hq := by
    have hpath : name ∉ document.path := hout document List.mem_cons_self
    have hne : q ≠ document.path.dropLast ++ [temp] := by
      rintro rfl
      rcases List.mem_append.mp hq with hq | hq
      · exact hpath (List.dropLast_subset _ hq)
      · rw [List.mem_singleton] at hq
        exact hname (hq ▸ hdrawn)
    have hpre : ¬q <+: document.path.dropLast := by
      intro hpre
      exact hpath (List.dropLast_subset _ (hpre.subset hq))
    rw [h, if_neg hne, if_neg (fun h => hpre h.1)]
    exact hunused q hq
  written := List.forall_mem_nil _
  above := List.forall_mem_nil _
  exact _ := List.forall_mem_nil _

/-- The first document is written before the others. -/
theorem Grown.cons (hplaced : Placed document.path document.text disk disk')
    (hclear : Clear disk document.path) (hpath : document.path ≠ [])
    (hapart : ∀ d ∈ documents, ¬d.path <+: document.path.dropLast) (hdone : done ⊆ documents)
    (hdrawn : ∀ name ∈ document.path, ¬drawn name) (h : Grown done documents drawn disk' disk'') :
    Grown (document :: done) (document :: documents) drawn disk disk'' := by
  have hself : disk'.read document.path = some (.file document.text) := by
    rw [hplaced.read, if_pos rfl]
  have hkept : disk''.isFile document.path = true := by
    rw [Disk.isFile_iff]
    rcases h.read document.path hdrawn with hsame | ⟨d, -, -, hfile⟩ | ⟨hnone, -⟩
    · exact ⟨_, hsame.trans hself⟩
    · exact ⟨_, hfile⟩
    · rw [hself] at hnone
      cases hnone
  refine ⟨fun q hq => ?_, fun name hname hunused hout => ?_, ?_, ?_, fun hnodup => ?_⟩
  · rcases h.read q hq with hsame | ⟨d, hd, hdpath, hfile⟩ | ⟨hnone, hmade, d, hd, hpre⟩
    · rw [hsame, hplaced.read]
      by_cases hqpath : q = document.path
      · rw [if_pos hqpath]
        exact .inr (.inl ⟨document, List.mem_cons_self, hqpath.symm, rfl⟩)
      · rw [if_neg hqpath]
        by_cases hmade : q <+: document.path.dropLast ∧ disk.read q = none
        · rw [if_pos hmade]
          exact .inr (.inr ⟨hmade.2, rfl, document, List.mem_cons_self, hmade.1⟩)
        · rw [if_neg hmade]
          exact .inl rfl
    · exact .inr (.inl ⟨d, List.mem_cons_of_mem _ hd, hdpath, hfile⟩)
    · refine .inr (.inr ⟨?_, hmade, d, List.mem_cons_of_mem _ hd, hpre⟩)
      rw [hplaced.read] at hnone
      split at hnone
      · cases hnone
      · split at hnone
        · cases hnone
        · exact hnone
  · exact h.unused name hname (hplaced.unused (hout document List.mem_cons_self) hunused)
      (fun d hd => hout d (List.mem_cons_of_mem _ hd))
  · exact List.forall_mem_cons.mpr ⟨hkept, h.written⟩
  · refine List.forall_mem_cons.mpr ⟨fun q hq => ?_, h.above⟩
    have hdir : disk'.read q = some .directory := by
      have hne : q ≠ document.path := by
        rintro rfl
        exact not_prefix_dropLast hpath hq
      rw [hplaced.read, if_neg hne]
      cases hnode : disk.read q with
      | none => simp [hq]
      | some node =>
        cases node with
        | directory => simp
        | file text =>
          have hfalse := hclear.above q hq
          have htrue : disk.isFile q = true := Disk.isFile_iff.mpr ⟨text, hnode⟩
          rw [htrue] at hfalse
          cases hfalse
    have hqdrawn : ∀ name ∈ q, ¬drawn name := fun name hname =>
      hdrawn name (List.dropLast_subset _ (hq.subset hname))
    rw [Disk.isDirectory_iff]
    rcases h.read q hqdrawn with hsame | ⟨d, hd, hdpath, -⟩ | ⟨hnone, -⟩
    · rw [hsame, hdir]
    · exact absurd (hdpath ▸ hq) (hapart d (hdone hd))
    · rw [hdir] at hnone
      cases hnone
  · rw [List.map_cons, List.nodup_cons] at hnodup
    refine List.forall_mem_cons.mpr ⟨?_, h.exact hnodup.2⟩
    rcases h.read document.path hdrawn with hsame | ⟨d, hd, hdpath, -⟩ | ⟨hnone, -⟩
    · rw [hsame, hself]
    · exact absurd (List.mem_map.mpr ⟨d, hdone hd, hdpath⟩) hnodup.1
    · rw [hself] at hnone
      cases hnone

theorem record_take_append (document : RecordDocument) (temp : String)
    (rest : List FileOperation) (n : ℕ) :
    (recordOperations document.path temp document.text ++ rest).take n =
      (recordOperations document.path temp document.text).take n ++ rest.take (n - 4) :=
  List.take_append

theorem grown_take (hpaths : ∀ d ∈ documents, d.path ≠ [])
    (hclear : Unobstructed disk (documents.map RecordDocument.path))
    (hfresh : FreshTemps disk documents fun n => tempName (uuids n))
    (hdrawn : ∀ n, drawn (tempName (uuids n)))
    (hout : ∀ d ∈ documents, ∀ name ∈ d.path, ¬drawn name) (k n : ℕ) :
    ∃ disk', execAll disk ((documentOperations uuids k documents).take n) = (disk', true) ∧
      Grown (documents.take (n / 4)) documents drawn disk disk' := by
  induction documents generalizing disk k n with
  | nil => exact ⟨disk, by simp [documentOperations, execAll], by simpa using Grown.refl _ _ _⟩
  | cons document documents ih =>
    have hpath := hpaths document List.mem_cons_self
    have hfirst : Clear disk document.path := hclear.clear _ (by simp)
    obtain ⟨mid, hexec, hcases⟩ := record_take hfirst hpath (hfresh.unused k) (hfresh.valid k)
      (hfresh.outside k document List.mem_cons_self) document.text n
    rw [documentOperations, record_take_append]
    rcases hcases with ⟨rfl, rfl⟩ | ⟨hpos, hlt, node, hprepared⟩ | ⟨hge, hplaced⟩
    · exact ⟨mid, by simp [execAll], by simpa using Grown.refl _ _ _⟩
    · have hzero : n / 4 = 0 := by omega
      have hnone : n - 4 = 0 := by omega
      refine ⟨mid, ?_, ?_⟩
      · rw [hnone, List.take_zero, List.append_nil, hexec]
      · rw [hzero]
        exact hprepared.grown (hdrawn k)
    · have hrest : FreshTemps mid documents fun n => tempName (uuids n) :=
        hfresh.placed hplaced
      obtain ⟨disk', hdone, hgrown⟩ := ih (fun d hd => hpaths d (List.mem_cons_of_mem _ hd))
        (hclear.placed hpath hplaced) hrest (fun d hd => hout d (List.mem_cons_of_mem _ hd))
        (k + 1) (n - 4)
      refine ⟨disk', ?_, ?_⟩
      · rw [execAll_append, hexec]
        exact hdone
      · have hsucc : n / 4 = (n - 4) / 4 + 1 := by omega
        rw [hsucc, List.take_succ_cons]
        refine Grown.cons hplaced hfirst hpath ?_ (List.take_subset _ _)
          (hout document List.mem_cons_self) hgrown
        intro d hd
        exact hclear.apart d.path (by simpa using .inr ⟨d, hd, rfl⟩) document.path (by simp)

theorem Grown.remove {name : String} (h : Grown done documents drawn disk disk')
    (hdone : done ⊆ documents) (hout : ∀ d ∈ documents, ∀ name ∈ d.path, ¬drawn name)
    (hname : name ∈ path) (hdrawn : drawn name) :
    Grown done documents drawn disk (disk'.remove path) := by
  have hkeep : ∀ q, (∀ name ∈ q, ¬drawn name) → (disk'.remove path).read q = disk'.read q := by
    intro q hq
    have hne : q ≠ path := by
      rintro rfl
      exact hq name hname hdrawn
    rw [Disk.read_remove, if_neg hne]
  have hpath : ∀ d ∈ done, (disk'.remove path).read d.path = disk'.read d.path :=
    fun d hd => hkeep d.path (hout d (hdone hd))
  refine ⟨fun q hq => ?_, fun other hother hunused hfree q hq => ?_, fun d hd => ?_,
    fun d hd q hq => ?_, fun hnodup d hd => ?_⟩
  · rw [hkeep q hq]
    exact h.read q hq
  · rw [Disk.read_remove]
    split
    · rfl
    · exact h.unused other hother hunused hfree q hq
  · have hfile := h.written d hd
    rw [Disk.isFile_iff] at hfile ⊢
    rw [hpath d hd]
    exact hfile
  · have hdir := h.above d hd q hq
    have hqdrawn : ∀ name ∈ q, ¬drawn name := fun other hother =>
      hout d (hdone hd) other (List.dropLast_subset _ (hq.subset hother))
    rw [Disk.isDirectory_iff] at hdir ⊢
    rw [hkeep q hqdrawn]
    exact hdir
  · rw [hpath d hd]
    exact h.exact hnodup d hd

theorem mem_documentOperations {k : ℕ} {p : List String}
    (h : .openTemp p ∈ documentOperations uuids k documents) : ∃ n, tempName (uuids n) ∈ p := by
  induction documents generalizing k with
  | nil => cases h
  | cons document documents ih =>
    rw [documentOperations] at h
    rcases List.mem_append.mp h with h | h
    · simp only [recordOperations, List.mem_cons, reduceCtorEq, FileOperation.openTemp.injEq,
        List.not_mem_nil, or_false, false_or] at h
      exact ⟨k, by simp [h]⟩
    · exact ih h

/-- Removing temporary files changes nothing else. -/
theorem Grown.removeTemps {operations : List FileOperation}
    (h : Grown done documents drawn disk disk') (hdone : done ⊆ documents)
    (hout : ∀ d ∈ documents, ∀ name ∈ d.path, ¬drawn name)
    (htemps : ∀ p, .openTemp p ∈ operations → ∃ name ∈ p, drawn name) :
    Grown done documents drawn disk (PerRecord.removeTemps disk' operations) := by
  induction operations generalizing disk' with
  | nil => exact h
  | cons operation operations ih =>
    have hrest : ∀ p, .openTemp p ∈ operations → ∃ name ∈ p, drawn name :=
      fun p hp => htemps p (List.mem_cons_of_mem _ hp)
    cases operation with
    | openTemp path =>
      obtain ⟨name, hname, hdrawn⟩ := htemps path List.mem_cons_self
      exact ih (h.remove hdone hout hname hdrawn) hrest
    | makeDirectory path => exact ih h hrest
    | writeTemp path text => exact ih h hrest
    | publish temp path => exact ih h hrest

/-- A bootstrap that is done again over what an earlier one left. -/
theorem Grown.trans (h : Grown done documents drawn disk disk') (hdone : done ⊆ documents)
    (h' : Grown documents documents drawn disk' disk'') :
    Grown documents documents drawn disk disk'' where
  read q hq := by
    rcases h'.read q hq with hsame | hfile | ⟨hnone, hmade, hpre⟩
    · rw [hsame]
      rcases h.read q hq with hsame | ⟨d, hd, hfile⟩ | hmade
      · exact .inl hsame
      · exact .inr (.inl ⟨d, hdone hd, hfile⟩)
      · exact .inr (.inr hmade)
    · exact .inr (.inl hfile)
    · refine .inr (.inr ⟨?_, hmade, hpre⟩)
      rcases h.read q hq with hsame | ⟨d, -, -, hfile⟩ | ⟨-, hmade', -⟩
      · rw [← hsame, hnone]
      · rw [hfile] at hnone
        cases hnone
      · rw [hmade'] at hnone
        cases hnone
  unused name hname hunused hout := h'.unused name hname (h.unused name hname hunused hout) hout
  written := h'.written
  above := h'.above
  exact := h'.exact

theorem Grown.unobstructed (h : Grown done documents drawn disk disk')
    (hclear : Unobstructed disk (documents.map RecordDocument.path)) (hdone : done ⊆ documents)
    (hout : ∀ d ∈ documents, ∀ name ∈ d.path, ¬drawn name) :
    Unobstructed disk' (documents.map RecordDocument.path) := by
  refine ⟨fun p hp => ?_, hclear.apart⟩
  have hp' := hclear.clear p hp
  obtain ⟨document, hdocument, rfl⟩ := List.mem_map.mp hp
  refine ⟨hp'.valid, fun q hq => ?_, ?_⟩
  · have hqdrawn : ∀ name ∈ q, ¬drawn name := fun name hname =>
      hout document hdocument name (List.dropLast_subset _ (hq.subset hname))
    have hold := hp'.above q hq
    by_contra hfile
    obtain ⟨text, htext⟩ := Disk.isFile_iff.mp (show disk'.isFile q = true by simpa using hfile)
    rcases h.read q hqdrawn with hsame | ⟨d, hd, hdpath, -⟩ | ⟨-, hmade, -⟩
    · have htrue : disk.isFile q = true := Disk.isFile_iff.mpr ⟨text, hsame ▸ htext⟩
      rw [hold] at htrue
      cases htrue
    · exact hclear.apart d.path (List.mem_map_of_mem (hdone hd)) document.path hp (hdpath ▸ hq)
    · rw [hmade] at htext
      cases htext
  · by_contra hdir
    have hread := Disk.isDirectory_iff.mp (show disk'.isDirectory document.path = true by
      simpa using hdir)
    rcases h.read document.path (hout document hdocument) with hsame | ⟨d, -, -, hfile⟩ |
      ⟨-, -, d, hd, hpre⟩
    · have htrue : disk.isDirectory document.path = true :=
        Disk.isDirectory_iff.mpr (hsame ▸ hread)
      rw [hp'.free] at htrue
      cases htrue
    · rw [hfile] at hread
      cases hread
    · exact hclear.apart document.path hp d.path (List.mem_map_of_mem hd) hpre

end PerRecord

end TianmaCoder
