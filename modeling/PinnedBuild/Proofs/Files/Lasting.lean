import Mathlib
import PinnedBuild.Proofs.Files.Operations
import PinnedBuild.Proofs.Twin

/-!
Two trees in which all paths lead to the same. Nothing that is done without reading files tells them
apart, and a relation of them lasts through all of it if it lasts through four changes made in both.
One such relation is that the trees are the same but for what one file holds.
-/

namespace PinnedBuild.Files

open FileTree

namespace FileTree

/-- The same stands at each place, there are as many files, and the user is the same. -/
structure SameShape (t u : FileTree) : Prop where
  nodes : u.nodes = t.nodes
  cwd : u.cwd = t.cwd
  count : u.files.length = t.files.length
  user : u.user = t.user

/-- A change of a file whose new permissions do not depend on what the file holds. -/
def Steady (f : File → File) : Prop := ∀ g g' : File, g.mode = g'.mode → (f g).mode = (f g').mode

/-- A relation that keeps the shape and lasts through every change made in both trees, but that of a
file being given another place. -/
structure Lasting (R : FileTree → FileTree → Prop) : Prop where
  shape : ∀ {t u}, R t u → SameShape t u
  put : ∀ {t u at_ n}, R t u → (∀ id, n ≠ .file id) → R (t.put at_ n) (u.put at_ n)
  putFile : ∀ {t u at_ mode}, R t u → R (t.putFile at_ mode).2 (u.putFile at_ mode).2
  erase : ∀ {t u at_}, R t u → R (t.erase at_) (u.erase at_)
  modifyFile : ∀ {t u id f}, R t u → Steady f → R (t.modifyFile id f) (u.modifyFile id f)

/-- One that lasts through that too. -/
structure Enduring (R : FileTree → FileTree → Prop) : Prop extends Lasting R where
  place : ∀ {t u at_ n}, R t u → R (t.put at_ n) (u.put at_ n)

variable {t u : FileTree}

lemma steady_content (c : File → Bytes) : Steady fun f => { f with content := c f } :=
  fun _ _ h => h

lemma steady_mode (m : Mode) : Steady fun f => { f with mode := m } := fun _ _ _ => rfl

lemma Lasting.append {R : FileTree → FileTree → Prop} (hR : Lasting R) (h : R t u) (id : Nat)
    (b : Bytes) : R (t.append id b) (u.append id b) := hR.modifyFile h (steady_content _)

lemma SameShape.refl (t : FileTree) : SameShape t t := ⟨rfl, rfl, rfl, rfl⟩

/-! ### Where paths lead -/

lemma SameShape.node? (h : SameShape t u) (loc : Location) : u.node? loc = t.node? loc := by
  rw [FileTree.node?, h.nodes]
  rfl

lemma SameShape.searchable (h : SameShape t u) (loc : Location) :
    u.searchable loc = t.searchable loc := by
  rw [FileTree.searchable, h.node?, h.user]
  rfl

lemma SameShape.walkNames (h : SameShape t u)
    (onLink : List Name → Location → Except FileError Found) (follow : Bool) (names : List Name)
    (here : Location) :
    u.walkNames onLink follow names here = t.walkNames onLink follow names here := by
  induction names generalizing here with
  | nil => simp only [FileTree.walkNames, h.node?]
  | cons name rest ih => simp only [FileTree.walkNames, h.node?, h.searchable, ih]

lemma SameShape.walkLinks (h : SameShape t u) (follow : Bool) (links : Nat) :
    u.walkLinks follow links = t.walkLinks follow links := by
  induction links with
  | zero => exact funext fun names => funext fun here => h.walkNames _ follow names here
  | succ links ih =>
    unfold FileTree.walkLinks
    rw [ih]
    exact funext fun names => funext fun here => h.walkNames _ follow names here

lemma SameShape.walk (h : SameShape t u) (follow : Bool) (p : Path) :
    u.walk follow p = t.walk follow p := by
  unfold FileTree.walk
  rw [h.walkLinks, h.cwd]

lemma SameShape.lookup (h : SameShape t u) (follow : Bool) (p : Path) :
    u.lookup follow p = t.lookup follow p := by
  unfold FileTree.lookup
  rw [h.walk]

lemma SameShape.isDirectory (h : SameShape t u) (p : Path) : u.isDirectory p = t.isDirectory p := by
  unfold FileTree.isDirectory
  rw [h.lookup]

end FileTree

/-! ### Operations -/

namespace FileOp

variable {ε δ α β : Type} {R : FileTree → FileTree → Prop} {t u : FileTree} {a b : FileOp α}

/-- Two outcomes: the same error, or the same value with trees in the relation. -/
inductive Match (R : FileTree → FileTree → Prop) :
    Except ε (α × FileTree) → Except ε (α × FileTree) → Prop
  | ok {x : α} {s t : FileTree} (h : R s t) : Match R (.ok (x, s)) (.ok (x, t))
  | error {e : ε} : Match R (.error e) (.error e)

lemma Match.mapError {r q : Except ε (α × FileTree)} (h : Match R r q) (f : ε → δ) :
    Match R (r.mapError f) (q.mapError f) := by
  rcases h with ⟨h⟩ | _
  · exact .ok h
  · exact .error

lemma Match.bind {S : FileTree → FileTree → Prop} {f g : α → FileOp β}
    (h : Match R (a.run t) (b.run u))
    (hf : ∀ x s v, R s v → Match S ((f x).run s) ((g x).run v)) :
    Match S ((a >>= f).run t) ((b >>= g).run u) := by
  rw [run_bind, run_bind]
  generalize a.run t = r at h
  generalize b.run u = q at h
  rcases h with ⟨h⟩ | _
  · exact hf _ _ _ h
  · exact .error

lemma Match.get_bind {f g : FileTree → FileOp β} (h : Match R ((f t).run t) ((g u).run u)) :
    Match R ((get >>= f : FileOp β).run t) ((get >>= g : FileOp β).run u) := h

lemma Match.toAct (h : Match R (a.run t) (b.run u)) (hR : R t u) :
    Twin R a.toAct b.toAct t u := by
  unfold Twin
  rw [run_toAct, run_toAct]
  generalize a.run t = r at h
  generalize b.run u = q at h
  rcases h with ⟨h⟩ | _
  · exact ⟨rfl, h⟩
  · exact ⟨rfl, hR⟩

/-- All that counts is the user and what stands at the place of the directory. -/
lemma match_needWritable_of (h : R t u) (hu : u.user = t.user) {dir : Location}
    (hn : u.node? dir = t.node? dir) :
    Match R ((needWritable dir).run t) ((needWritable dir).run u) := by
  have hsearch : u.searchable dir = t.searchable dir := by
    unfold FileTree.searchable
    rw [hn, hu]
  rw [run_needWritable, run_needWritable, hn, hsearch, hu]
  split
  · rcases t.searchable dir with e | _
    · exact .error
    · simp only [Except.bind_ok]
      split
      · exact .ok h
      · exact .error
  · exact .error

variable (hR : Lasting R) (h : R t u)

include hR h

lemma match_found (follow : Bool) (p : Path) :
    Match R ((found follow p).run t) ((found follow p).run u) := by
  rw [run_found, run_found, (hR.shape h).walk]
  rcases t.walk follow p with e | r
  · exact .error
  · exact .ok h

lemma match_lookup (follow : Bool) (p : Path) :
    Match R ((lookup follow p).run t) ((lookup follow p).run u) := by
  rw [run_lookup, run_lookup, (hR.shape h).lookup]
  rcases t.lookup follow p with e | r
  · exact .error
  · exact .ok h

lemma match_needWritable (dir : Location) :
    Match R ((needWritable dir).run t) ((needWritable dir).run u) :=
  match_needWritable_of h (hR.shape h).user ((hR.shape h).node? dir)

lemma match_foundBare (p : Path) :
    Match R ((foundBare p).run t) ((foundBare p).run u) := by
  unfold foundBare
  split
  · exact .error
  · exact match_found hR h false _

lemma match_addFile (dir : Location) (name : Name) :
    Match R ((addFile dir name).run t) ((addFile dir name).run u) := by
  refine (match_needWritable hR h dir).bind fun _ s v hs => .get_bind ?_
  show Match R (.ok (Handle.file s.files.length, (s.putFile (dir ++ [name]) newFileMode).2))
    (.ok (Handle.file v.files.length, (v.putFile (dir ++ [name]) newFileMode).2))
  rw [(hR.shape hs).count]
  exact .ok (hR.putFile hs)

lemma match_createNew (p : Path) :
    Match R ((createNew p).run t) ((createNew p).run u) := by
  refine (match_found hR h false p).bind fun r s v hs => ?_
  rcases r with ⟨l, n⟩ | ⟨dir, name⟩
  · exact .error
  · exact match_addFile hR hs dir name

lemma match_makeDirectory (p : Path) :
    Match R ((makeDirectory p).run t) ((makeDirectory p).run u) := by
  refine (match_foundBare hR h p).bind fun r s v hs => ?_
  rcases r with ⟨l, n⟩ | ⟨dir, name⟩
  · exact .error
  · refine (match_needWritable hR hs dir).bind fun _ s v hs => .get_bind ?_
    rw [(hR.shape hs).node?]
    split
    · exact .ok (hR.put hs (by simp))
    · exact .error

lemma match_removeFile (p : Path) :
    Match R ((removeFile p).run t) ((removeFile p).run u) := by
  refine (match_lookup hR h false p).bind fun r s v hs => ?_
  rcases r with ⟨l, m | q | j | d⟩
  · exact .error
  all_goals exact (match_needWritable hR hs _).bind fun _ _ _ hs => .ok (hR.erase hs)

lemma match_makeLink (target p : Path) :
    Match R ((makeLink target p).run t) ((makeLink target p).run u) := by
  unfold makeLink
  split_ifs
  · exact .error
  · exact .error
  · exact .error
  · refine (match_found hR h false p).bind fun r s v hs => ?_
    rcases r with ⟨l, n⟩ | ⟨dir, name⟩
    · exact .error
    · exact (match_needWritable hR hs dir).bind fun _ _ _ hs => .ok (hR.put hs (by simp))

lemma match_write (f : Handle) (bytes : Bytes) :
    Match R ((write f bytes).run t) ((write f bytes).run u) := by
  rcases f with l | j | _ | _
  · exact .error
  · exact .ok (hR.append h j bytes)
  · exact .ok h
  · unfold write
    simp only
    split
    · exact .ok h
    · exact .error

lemma match_setMode (f : Handle) (mode : Mode) :
    Match R ((setMode f mode).run t) ((setMode f mode).run u) := by
  rcases f with l | j | d
  · exact .ok (hR.put h (by simp))
  · exact .ok (hR.modifyFile h (steady_mode mode))
  · exact .ok h

lemma match_changeMode (p : Path) (mode : Mode) :
    Match R ((changeMode p mode).run t) ((changeMode p mode).run u) := by
  refine (match_lookup hR h true p).bind fun r s v hs => ?_
  rcases r with ⟨l, m | q | j | d⟩
  · exact match_setMode hR hs _ mode
  · exact .ok hs
  · exact match_setMode hR hs _ mode
  · exact .ok hs

lemma match_realLocation (p : Path) :
    Match R ((realLocation p).run t) ((realLocation p).run u) :=
  (match_lookup hR h true p).bind fun _ _ _ hs => .ok hs

omit hR in
/-- Links are not followed to what is given another place. -/
lemma match_hardLink (hR : Enduring R) (source p : Path) :
    Match R ((hardLink source p).run t) ((hardLink source p).run u) := by
  refine (match_lookup hR.toLasting h false source).bind fun q s v hs => ?_
  refine (match_found hR.toLasting hs false p).bind fun r s v hs => ?_
  rcases r with ⟨l, n⟩ | ⟨dir, name⟩
  · exact .error
  · refine (match_needWritable hR.toLasting hs dir).bind fun _ s v hs => ?_
    rcases q with ⟨l, m | q | j | d⟩
    · exact .error
    all_goals exact .ok (hR.place hs)

end FileOp

namespace FileAct

variable {R : FileTree → FileTree → Prop} {t u : FileTree}

lemma twin_ensureOne {p : Path}
    (hmake : ∀ {s v}, R s v → FileOp.Match R ((FileOp.makeDirectory p).run s)
      ((FileOp.makeDirectory p).run v))
    (hthere : ∀ {s v}, R s v → v.isDirectory p = s.isDirectory p) (h : R t u) :
    Twin R (ensureOne p) (ensureOne p) t u := by
  refine ((hmake h).toAct h).tryCatch fun e s v hs => twin_get_bind ?_
  rw [hthere hs]
  split
  · exact twin_pure _ hs
  · exact twin_throw e hs

/-- All that has to be known of the directories on the way is that each is made in both trees or in
neither. -/
lemma twin_ensureChain (ps : List Path)
    (hmake : ∀ p ∈ ps, ∀ {s v}, R s v → FileOp.Match R ((FileOp.makeDirectory p).run s)
      ((FileOp.makeDirectory p).run v))
    (hthere : ∀ p ∈ ps, ∀ {s v}, R s v → v.isDirectory p = s.isDirectory p) (h : R t u) :
    Twin R (ensureChain ps) (ensureChain ps) t u := by
  induction ps generalizing t u with
  | nil => exact twin_throw _ h
  | cons p above ih =>
    unfold ensureChain
    split
    · exact twin_pure _ h
    · refine ((hmake p (by simp) h).toAct h).tryCatch fun e s v hs => ?_
      split
      · have habove := ih (fun q hq => hmake q (by simp [hq]))
          (fun q hq => hthere q (by simp [hq])) hs
        exact habove.bind
          fun _ _ _ hs => twin_ensureOne (hmake p (by simp)) (hthere p (by simp)) hs
      · refine twin_get_bind ?_
        rw [hthere p (by simp) hs]
        split
        · exact twin_pure _ hs
        · exact twin_throw e hs

lemma twin_ensureDirectory (hR : Lasting R) (h : R t u) (p : Path) :
    Twin R (ensureDirectory p) (ensureDirectory p) t u :=
  twin_ensureChain _ (fun q _ _ _ hs => FileOp.match_makeDirectory hR hs q)
    (fun q _ _ _ hs => (hR.shape hs).isDirectory q) h

end FileAct

/-! ### Trees that differ in a file -/

namespace FileTree

/-- The trees are the same but for one file, which is there in both or in neither. -/
structure SameBut (id : Nat) (t u : FileTree) : Prop extends SameShape t u where
  others : ∀ j, j ≠ id → u.file? j = t.file? j

variable {id : Nat} {t u : FileTree}

lemma SameBut.put (h : SameBut id t u) (at_ : Location) (n : Node) :
    SameBut id (t.put at_ n) (u.put at_ n) where
  nodes := by simp [FileTree.put, FileTree.erase, h.nodes]
  cwd := h.cwd
  count := h.count
  user := h.user
  others := h.others

lemma enduring_sameBut (id : Nat) : Enduring (SameBut id) where
  shape h := h.toSameShape
  put h _ := h.put _ _
  place h := h.put _ _
  putFile h := by
    refine ⟨⟨?_, h.cwd, ?_, h.user⟩, fun j hj => ?_⟩
    · simp [FileTree.putFile, FileTree.put, FileTree.erase, h.nodes, h.count]
    · simp [FileTree.putFile, h.count]
    · have ho := h.others j hj
      simp only [file?, FileTree.putFile] at ho ⊢
      rw [List.getElem?_append, List.getElem?_append, h.count, ho]
  erase h := by
    refine ⟨⟨?_, h.cwd, h.count, h.user⟩, h.others⟩
    simp [FileTree.erase, h.nodes]
  modifyFile h _ := by
    refine ⟨⟨h.nodes, h.cwd, ?_, h.user⟩, fun k hk => ?_⟩
    · simp [FileTree.modifyFile, h.count]
    · have ho := h.others k hk
      simp only [file?, FileTree.modifyFile, List.getElem?_modify] at ho ⊢
      rw [ho]

lemma sameBut_modifyFile (id : Nat) (t : FileTree) (f g : File → File) :
    SameBut id (t.modifyFile id f) (t.modifyFile id g) where
  nodes := rfl
  cwd := rfl
  count := by simp [FileTree.modifyFile]
  user := rfl
  others j hj := by rw [file?_modifyFile_of_ne (Ne.symm hj), file?_modifyFile_of_ne (Ne.symm hj)]

/-- The same is seen at each place where that file does not stand. -/
lemma SameBut.object? (h : SameBut id t u) {loc : Location} (hl : t.node? loc ≠ some (.file id)) :
    u.object? loc = t.object? loc := by
  unfold FileTree.object?
  rw [h.node?]
  rcases hn : t.node? loc with _ | (m | p | j | d)
  · rfl
  · rfl
  · rfl
  · have hj : j ≠ id := by
      rintro rfl
      exact hl hn
    simp only [h.others j hj]
  · rfl

end FileTree

end PinnedBuild.Files
