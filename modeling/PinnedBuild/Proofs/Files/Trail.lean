import Mathlib
import PinnedBuild.Config.Store
import PinnedBuild.Digest.File
import PinnedBuild.Proofs.Files.Operations

/-!
What a path leads to depends only on the places that it passes through. Names that follow one where
nothing is count as they are spelled, so that the places of a path depend on links alone and stay
the same when what is missing is made.
-/

namespace PinnedBuild

namespace Files

namespace FileTree

variable {t u : FileTree} {p : Path} {follow : Bool} {l loc here : Location} {ss : List Name}

/-! ### The places on the way -/

def link? (t : FileTree) (loc : Location) : Option Path :=
  match t.node? loc with
  | some (.link target) => some target
  | _ => none

/-- The places that names lead through, where `onLink` goes on from a link. -/
def trailNames (t : FileTree) (onLink : List Name → Location → List Location) :
    List Name → Location → List Location
  | [], here => [here]
  | name :: rest, here => here ::
    if name = [Path.dot] then trailNames t onLink rest here
    else if name = [Path.dot, Path.dot] then trailNames t onLink rest here.dropLast
    else match t.link? (here ++ [name]) with
      | some target => (here ++ [name]) :: onLink (steps target ++ rest) (origin here target)
      | none => trailNames t onLink rest (here ++ [name])

def trailLinks (t : FileTree) : Nat → List Name → Location → List Location
  | 0 => t.trailNames fun _ _ => []
  | links + 1 => t.trailNames (t.trailLinks links)

/-- The places that a path passes through. -/
def trail (t : FileTree) (p : Path) : List Location :=
  t.trailLinks maxLinks (steps p) (origin t.cwd p)

lemma mem_trailNames (t : FileTree) (f : List Name → Location → List Location) (ss : List Name)
    (here : Location) : here ∈ t.trailNames f ss here := by
  cases ss <;> simp [trailNames]

/-- Where the links are the same, so are the places. -/
lemma trail_congr (hcwd : u.cwd = t.cwd) (h : ∀ loc, u.link? loc = t.link? loc) (p : Path) :
    u.trail p = t.trail p := by
  have hnames : ∀ f ss here, u.trailNames f ss here = t.trailNames f ss here := by
    intro f ss here
    induction ss generalizing here with
    | nil => rfl
    | cons name rest ih => simp only [trailNames, h, ih]
  have hlinks : ∀ links, u.trailLinks links = t.trailLinks links := by
    intro links
    induction links with
    | zero => exact funext fun ss => funext fun here => hnames _ ss here
    | succ links ih =>
      unfold trailLinks
      rw [ih]
      exact funext fun ss => funext fun here => hnames _ ss here
  unfold trail
  rw [hcwd, hlinks]

section

variable {k : List Name → Location → List Location} {more : List Name}

/-- More names lead through more places. -/
lemma trailNames_append (hk : ∀ ss here, k ss here ⊆ k (ss ++ more) here) (ss : List Name)
    (here : Location) : t.trailNames k ss here ⊆ t.trailNames k (ss ++ more) here := by
  induction ss generalizing here with
  | nil =>
    simp only [trailNames, List.nil_append, List.cons_subset, List.nil_subset, and_true]
    exact mem_trailNames t k more here
  | cons name rest ih =>
    simp only [List.cons_append, trailNames]
    refine List.cons_subset_cons _ ?_
    split
    · exact ih _
    split
    · exact ih _
    split
    · refine List.cons_subset_cons _ ?_
      rw [← List.append_assoc]
      exact hk _ _
    · exact ih _

lemma trailLinks_append (links : Nat) (ss : List Name) (here : Location) :
    t.trailLinks links ss here ⊆ t.trailLinks links (ss ++ more) here := by
  induction links generalizing ss here with
  | zero => exact trailNames_append (fun _ _ => List.Subset.refl _) ss here
  | succ links ih => exact trailNames_append ih ss here

end

/-- Without the slashes at its end, a path passes through no other places. -/
lemma trail_withoutSlashes (t : FileTree) (p : Path) :
    t.trail (FileOp.withoutSlashes p) ⊆ t.trail p := by
  unfold trail
  rw [FileOp.origin_withoutSlashes, Path.steps_eq, Path.steps_eq, FileOp.bare_withoutSlashes]
  by_cases hq : (FileOp.withoutSlashes p).getLast? = some Path.slash
  · -- then all of the path is slashes
    have hp : p.getLast? = some Path.slash := by
      obtain ⟨j, hj, -⟩ := FileOp.eq_withoutSlashes p
      rw [hj, List.getLast?_append]
      rcases j with _ | j <;> simp [hq, List.getLast?_replicate]
    rw [if_pos hq, if_pos hp]
    exact List.Subset.refl _
  · rw [if_neg hq, List.append_nil]
    exact trailLinks_append _ _ _

section

variable {f : List Name → Location → Except FileError Found}
  {k : List Name → Location → List Location} {dir : Location} {x : Name}

/-- A place that is found missing is one of those on the way. -/
lemma mem_trailNames_of_missing
    (hf : ∀ ss here, f ss here = .ok (.missing dir x) → dir ++ [x] ∈ k ss here)
    (h : t.walkNames f follow ss here = .ok (.missing dir x)) :
    dir ++ [x] ∈ t.trailNames k ss here := by
  induction ss generalizing here with
  | nil =>
    simp only [walkNames] at h
    split at h <;> simp at h
  | cons name rest ih =>
    simp only [walkNames] at h
    rcases hsearch : t.searchable here with e | ⟨⟩ <;> rw [hsearch] at h
    · simp at h
    simp only [Except.ok_bind] at h
    simp only [trailNames]
    refine List.mem_cons_of_mem _ ?_
    split at h
    · rw [if_pos (by assumption)]
      exact ih h
    rw [if_neg (by assumption)]
    split at h
    · rw [if_pos (by assumption)]
      exact ih h
    rw [if_neg (by assumption)]
    split at h
    · simp at h
    unfold link?
    rcases hn : t.node? (here ++ [name]) with _ | (m | target | id | d) <;> rw [hn] at h <;>
      simp only at h ⊢
    · split at h
      · obtain ⟨rfl, rfl⟩ := Found.missing.inj (Except.ok.inj h)
        exact mem_trailNames t k rest _
      · simp at h
    · exact ih h
    · split at h
      · simp at h
      · exact List.mem_cons_of_mem _ (hf _ _ h)
    · split at h <;> simp at h
    · split at h <;> simp at h

lemma mem_trail_of_missing (h : t.walk follow p = .ok (.missing dir x)) :
    dir ++ [x] ∈ t.trail p := by
  have hlinks : ∀ links ss here, t.walkLinks follow links ss here = .ok (.missing dir x) →
      dir ++ [x] ∈ t.trailLinks links ss here := by
    intro links
    induction links with
    | zero => exact fun _ _ => mem_trailNames_of_missing fun _ _ h => by simp at h
    | succ links ih => exact fun _ _ => mem_trailNames_of_missing ih
  obtain ⟨-, hwalk⟩ := walk_ok h
  exact hlinks _ _ _ hwalk

end

/-! ### Places that look alike -/

/-- What stands somewhere in the one tree looks to a reader like what stands in the other. -/
inductive Likeness (t u : FileTree) : Option Node → Option Node → Prop
  | gap : Likeness t u none none
  | directory {m m' : Mode} (reads : t.user.mayRead m = u.user.mayRead m')
      (searches : t.user.maySearch m = u.user.maySearch m') :
      Likeness t u (some (.directory m)) (some (.directory m'))
  | link (target : Path) : Likeness t u (some (.link target)) (some (.link target))
  | file {i j : Nat} (same : t.file? i = u.file? j) : Likeness t u (some (.file i)) (some (.file j))
  | device (d : Device) : Likeness t u (some (.device d)) (some (.device d))

def LooksAlike (t u : FileTree) (loc : Location) : Prop := Likeness t u (t.node? loc) (u.node? loc)

/-- Both walks come to the same end. -/
inductive FoundAlike (t u : FileTree) : Except FileError Found → Except FileError Found → Prop
  | error (e : FileError) : FoundAlike t u (.error e) (.error e)
  | missing (dir : Location) (x : Name) :
      FoundAlike t u (.ok (.missing dir x)) (.ok (.missing dir x))
  | node (l : Location) {m n : Node} (like : Likeness t u (some m) (some n)) :
      FoundAlike t u (.ok (.node l m)) (.ok (.node l n))

lemma LooksAlike.searchable (h : t.LooksAlike u here) : t.searchable here = u.searchable here := by
  unfold LooksAlike at h
  unfold FileTree.searchable
  generalize t.node? here = a at h
  generalize u.node? here = b at h
  cases h with
  | directory _ searches => simp only [searches]
  | _ => rfl

variable {f g : List Name → Location → Except FileError Found}
  {k : List Name → Location → List Location}

/-- Names that pass through places which look alike lead to the same. -/
lemma walkNames_alike
    (hfg : ∀ ss here, (∀ loc ∈ k ss here, t.LooksAlike u loc) →
      FoundAlike t u (f ss here) (g ss here))
    (h : ∀ loc ∈ t.trailNames k ss here, t.LooksAlike u loc) :
    FoundAlike t u (t.walkNames f follow ss here) (u.walkNames g follow ss here) := by
  induction ss generalizing here with
  | nil =>
    have hlike := h here (by simp [trailNames])
    simp only [walkNames]
    unfold LooksAlike at hlike
    rcases ht : t.node? here with _ | m <;> rcases hu : u.node? here with _ | n <;>
      rw [ht, hu] at hlike
    · exact .error _
    · cases hlike
    · cases hlike
    · exact .node here hlike
  | cons name rest ih =>
    have hhere := h here (mem_trailNames t k _ here)
    simp only [trailNames, List.mem_cons, forall_eq_or_imp] at h
    obtain ⟨-, h⟩ := h
    simp only [walkNames]
    rw [← hhere.searchable]
    rcases t.searchable here with e | ⟨⟩
    · exact .error e
    simp only [Except.ok_bind]
    by_cases hdot : name = [Path.dot]
    · rw [if_pos hdot] at h ⊢
      rw [if_pos hdot]
      exact ih h
    by_cases hup : name = [Path.dot, Path.dot]
    · rw [if_neg hdot, if_pos hup] at h ⊢
      rw [if_neg hdot, if_pos hup]
      exact ih h
    rw [if_neg hdot, if_neg hup] at h
    simp only [if_neg hdot, if_neg hup]
    split
    · exact .error _
    have hthere : t.LooksAlike u (here ++ [name]) := by
      rcases hl : t.link? (here ++ [name]) with _ | target <;> rw [hl] at h
      · exact h _ (mem_trailNames t k rest _)
      · exact h _ (List.mem_cons_self ..)
    unfold LooksAlike at hthere
    unfold FileTree.link? at h
    generalize t.node? (here ++ [name]) = a at h hthere ⊢
    generalize u.node? (here ++ [name]) = b at hthere ⊢
    cases hthere with
    | gap =>
      simp only
      split
      · exact .missing here name
      · exact .error _
    | directory _ _ => exact ih h
    | link target =>
      simp only
      split
      · exact .node _ (.link target)
      · exact hfg _ _ fun loc hloc => h loc (List.mem_cons_of_mem _ hloc)
    | file same =>
      simp only
      split
      · exact .node _ (.file same)
      · exact .error _
    | device d =>
      simp only
      split
      · exact .node _ (.device d)
      · exact .error _

lemma walkLinks_alike (links : Nat) (h : ∀ loc ∈ t.trailLinks links ss here, t.LooksAlike u loc) :
    FoundAlike t u (t.walkLinks follow links ss here) (u.walkLinks follow links ss here) := by
  induction links generalizing ss here with
  | zero => exact walkNames_alike (fun _ _ _ => .error _) h
  | succ links ih => exact walkNames_alike (fun _ _ h => ih h) h

/-! ### One path in two trees -/

/-- All places that a path passes through look alike in both trees, to the same user. -/
structure SameWay (t u : FileTree) (p : Path) : Prop where
  cwd : u.cwd = t.cwd
  user : u.user = t.user
  looks : ∀ loc ∈ t.trail p, t.LooksAlike u loc

lemma SameWay.walk (h : t.SameWay u p) (follow : Bool) :
    FoundAlike t u (t.walk follow p) (u.walk follow p) := by
  unfold FileTree.walk
  rw [h.cwd]
  split
  · exact .error _
  split
  · exact .error _
  split
  · exact .error _
  · exact walkLinks_alike _ h.looks

/-- The path leads nowhere in both trees, or to the same place in both. -/
lemma SameWay.lookup (h : t.SameWay u p) (follow : Bool) :
    (∃ e, t.lookup follow p = .error e ∧ u.lookup follow p = .error e) ∨
      ∃ l m n, t.lookup follow p = .ok (l, m) ∧ u.lookup follow p = .ok (l, n) ∧
        Likeness t u (some m) (some n) := by
  have hw := h.walk follow
  unfold FileTree.lookup
  generalize t.walk follow p = a at hw
  generalize u.walk follow p = b at hw
  cases hw with
  | error e => exact .inl ⟨e, rfl, rfl⟩
  | missing dir x => exact .inl ⟨_, rfl, rfl⟩
  | node l like => exact .inr ⟨l, _, _, rfl, rfl, like⟩

lemma SameWay.isThere (h : t.SameWay u p) : t.isThere p = u.isThere p := by
  unfold FileTree.isThere
  rcases h.lookup true with ⟨e, ht, hu⟩ | ⟨l, m, n, ht, hu, -⟩
  · rw [ht, hu]
  · rw [ht, hu]
    rfl

lemma SameWay.isDirectory (h : t.SameWay u p) : t.isDirectory p = u.isDirectory p := by
  unfold FileTree.isDirectory
  rcases h.lookup true with ⟨e, ht, hu⟩ | ⟨l, m, n, ht, hu, like⟩
  · rw [ht, hu]
  · rw [ht, hu]
    cases like <;> rfl

end FileTree

namespace FileOp

open FileTree

variable {t u : FileTree} {p : Path}

lemma run_fileMode (id : Nat) (t : FileTree) : (fileMode id).run t = match t.file? id with
    | some f => .ok (f.mode, t)
    | none => .error .notFound := by
  unfold fileMode
  rw [run_bind, run_get]
  simp only
  rcases t.file? id with _ | f <;> rfl

lemma run_contents_file (id : Nat) (t : FileTree) :
    (contents (.file id)).run t = match t.file? id with
    | some f => .ok (f.content, t)
    | none => .error .notFound := by
  unfold contents
  rw [run_bind, run_get]
  simp only
  rcases t.file? id with _ | f <;> rfl

/-- What is opened in the one tree has in it the same as what is opened in the other. -/
lemma openRead_alike (h : t.SameWay u p) :
    (∃ e, (openRead p).run t = .error e ∧ (openRead p).run u = .error e) ∨
      ∃ f g, (openRead p).run t = .ok (f, t) ∧ (openRead p).run u = .ok (g, u) ∧
        ((contents f).run t).map Prod.fst = ((contents g).run u).map Prod.fst := by
  unfold openRead
  rw [run_bind, run_bind, run_lookup, run_lookup]
  rcases h.lookup true with ⟨e, ht, hu⟩ | ⟨l, m, n, ht, hu, like⟩ <;> rw [ht, hu] <;>
    simp only [Except.map]
  · exact .inl ⟨e, rfl, rfl⟩
  cases like with
  | directory reads _ =>
    simp only [run_bind, run_get, reads]
    split
    · exact .inr ⟨_, _, rfl, rfl, rfl⟩
    · exact .inl ⟨_, rfl, rfl⟩
  | link target => exact .inl ⟨_, rfl, rfl⟩
  | @file i j same =>
    simp only [run_bind, run_get, run_fileMode, ← same]
    rcases hf : t.file? i with _ | f
    · exact .inl ⟨_, rfl, rfl⟩
    simp only [h.user]
    split
    · refine .inr ⟨.file i, .file j, rfl, rfl, ?_⟩
      rw [run_contents_file, run_contents_file, ← same, hf]
    · exact .inl ⟨_, rfl, rfl⟩
  | device d => exact .inr ⟨_, _, rfl, rfl, rfl⟩

lemma readAll_alike (h : t.SameWay u p) :
    ((readAll p).run t).map Prod.fst = ((readAll p).run u).map Prod.fst := by
  unfold readAll
  rw [run_bind, run_bind]
  rcases openRead_alike h with ⟨e, ht, hu⟩ | ⟨f, g, ht, hu, hsame⟩
  · rw [ht, hu]
  · rw [ht, hu]
    exact hsame

end FileOp

end Files

open Files FileTree

variable {t u : FileTree} {p : Path}

lemma Digest.readerOf_eq (t : FileTree) (f : Handle) :
    readerOf t f = match ((FileOp.contents f).run t).map Prod.fst with
      | .ok bytes => [.content bytes]
      | .error e => [.failure e.message] := by
  unfold readerOf
  rcases (FileOp.contents f).run t with e | ⟨bytes, t'⟩ <;> rfl

/-- A digest depends on nothing but the way to its file. -/
lemma Digest.hashFile_alike (h : t.SameWay u p) : hashFile t p = hashFile u p := by
  unfold hashFile
  rcases FileOp.openRead_alike h with ⟨e, ht, hu⟩ | ⟨f, g, ht, hu, hsame⟩
  · rw [ht, hu]
  · have hreader : readerOf t f = readerOf u g := by rw [readerOf_eq, readerOf_eq, hsame]
    rw [ht, hu]
    simp only [hreader]

lemma Config.load_eq (t : FileTree) (path : Path) :
    load t path = match ((FileOp.readAll path).run t).map Prod.fst with
      | .error e => .error (.cannotRead path e)
      | .ok bytes =>
        match Bytes.decode? bytes with
        | none => .error (.notText path)
        | some s => (parse s).mapError (.noConfig path) := by
  unfold load
  rcases (FileOp.readAll path).run t with e | ⟨bytes, t'⟩ <;> rfl

/-- A configuration depends on nothing but the way to its file. -/
lemma Config.load_alike (h : t.SameWay u p) : load t p = load u p := by
  rw [load_eq, load_eq, FileOp.readAll_alike h]

end PinnedBuild
