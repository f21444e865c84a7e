import EdgeAgent.Files

/-! # A written file is read back

Writing records a node under one path. The directories that lead to the file are
recorded under shorter paths, so they are found as before.
-/

namespace EdgeAgent.Files

theorem node?_replace_self (f : Files) {p : Path} (hp : p ≠ []) (n : Node) :
    (f.replace p n).node? p = some n := by
  simp [node?, replace, hp]

theorem node?_replace_of_ne (f : Files) {p q : Path} (h : q ≠ p) (n : Node) :
    (f.replace p n).node? q = f.node? q := by
  unfold node? replace
  split
  · rfl
  · have hfind : (f.nodes.filter fun m => m.1 ≠ p).find? (fun m => m.1 = q) =
        f.nodes.find? fun m => m.1 = q := by
      rw [List.find?_filter]
      congr 1
      funext m
      by_cases hm : m.1 = q
      · simp [hm, h]
      · simp [hm]
    rw [List.find?_cons_of_neg (by simpa using Ne.symm h), hfind]

theorem walk_replace_of_ne (f : Files) (p : Path) (n : Node) {here q : Path}
    (h : ∀ r, r <+: q → here ++ r ≠ p) : (f.replace p n).walk here q = f.walk here q := by
  induction q generalizing here with
  | nil =>
      have hne : here ≠ p := by simpa using h [] (List.prefix_refl [])
      rw [walk, walk, node?_replace_of_ne f hne]
  | cons name q ih =>
      have hne : here ≠ p := by simpa using h [] List.nil_prefix
      have hrest : ∀ r, r <+: q → here ++ [name] ++ r ≠ p := by
        intro r hr
        rw [List.append_assoc]
        exact h (name :: r) (List.cons_prefix_cons.mpr ⟨rfl, hr⟩)
      rw [walk, walk, node?_replace_of_ne f hne, ih hrest]

theorem walk_replace (f : Files) (p : Path) (n : Node) {here q : Path}
    (h : (here ++ q).length < p.length) : (f.replace p n).walk here q = f.walk here q := by
  refine walk_replace_of_ne f p n ?_
  rintro r hr rfl
  have hle := hr.length_le
  rw [List.length_append, List.length_append] at h
  omega

theorem walk_append_singleton {f : Files} {here q : Path} (h : f.walk here q = .ok .directory)
    (name : String) {n : Node} (hn : f.node? (here ++ q ++ [name]) = some n) :
    f.walk here (q ++ [name]) = .ok n := by
  induction q generalizing here with
  | nil =>
      rw [List.append_nil] at hn
      rw [walk] at h
      split at h
      · rename_i m hm
        obtain rfl := Except.ok.inj h
        simp [walk, hm, hn]
      · cases h
  | cons other q ih =>
      rw [walk] at h
      split at h
      · rename_i hm
        have hrest := ih h (by simpa using hn)
        rw [List.cons_append, walk, hm]
        exact hrest
      · cases h
      · cases h

theorem put_eq_ok_iff {f g : Files} {p : Path} {text : Option String} :
    f.put p text = .ok g ↔ f.look p.dropLast = .ok .directory ∧ f.node? p ≠ some .directory ∧
      g = f.replace p (.file text) := by
  unfold put
  split
  · rename_i hlook
    simp [hlook]
  · rename_i hlook
    simp [hlook]
  · rename_i hlook
    split
    · rename_i hnode
      simp [hnode]
    · rename_i hfree
      simp only [hlook, Except.ok.injEq, true_and]
      exact ⟨fun h => ⟨hfree, h.symm⟩, fun h => h.2.symm⟩

theorem ne_nil_of_node? {f : Files} {p : Path} (h : f.node? p ≠ some .directory) : p ≠ [] := by
  rintro rfl
  exact h rfl

theorem length_dropLast_lt {p : Path} (hp : p ≠ []) : p.dropLast.length < p.length := by
  have hlength := List.length_pos_iff.mpr hp
  rw [List.length_dropLast]
  omega

theorem look_replace (f : Files) {p : Path} (hp : p ≠ []) (n : Node) :
    (f.replace p n).look p.dropLast = f.look p.dropLast :=
  walk_replace f p n (length_dropLast_lt hp)

theorem read_write {f g : Files} {p : Path} {text : String} (h : f.write p text = .ok g) :
    g.read p = .ok text := by
  obtain ⟨hdirectory, hfree, rfl⟩ := put_eq_ok_iff.mp h
  have hp := ne_nil_of_node? hfree
  obtain ⟨q, name, rfl⟩ : ∃ q name, p = q ++ [name] :=
    ⟨p.dropLast, p.getLast hp, (List.dropLast_concat_getLast hp).symm⟩
  rw [← look_replace f hp (.file (some text)), List.dropLast_concat] at hdirectory
  have hlook : (f.replace (q ++ [name]) (.file (some text))).look (q ++ [name]) =
      .ok (.file (some text)) :=
    walk_append_singleton hdirectory name (node?_replace_self f hp _)
  rw [read, hlook]

theorem look_of_read {f : Files} {p : Path} {text : String} (h : f.read p = .ok text) :
    f.look p = .ok (.file (some text)) := by
  unfold read at h
  split at h
  · rename_i hlook
    obtain rfl := Except.ok.inj h
    exact hlook
  · cases h
  · cases h
  · cases h

theorem rename_eq_put {f : Files} {p : Path} {text : String} (h : f.read p = .ok text) (q : Path) :
    f.rename p q = (f.remove p).put q (some text) := by
  rw [rename, look_of_read h]
  rfl

theorem read_put_of_ne {f g : Files} {p q : Path} {text : Option String} (hne : q ≠ p)
    (hlength : q.length ≤ p.length) (h : f.put p text = .ok g) : g.read q = f.read q := by
  obtain ⟨_, _, rfl⟩ := put_eq_ok_iff.mp h
  have hlook : (f.replace p (.file text)).look q = f.look q := by
    refine walk_replace_of_ne f p _ ?_
    rintro r hr rfl
    exact hne (hr.eq_of_length_le hlength).symm
  rw [read, read, hlook]

theorem look_dropLast_of_read {f : Files} {p : Path} {text : String} (h : f.read p = .ok text) :
    p ≠ [] ∧ f.look p.dropLast = .ok .directory := by
  have hlook := look_of_read h
  have hp : p ≠ [] := by
    rintro rfl
    cases hlook
  have hwalk (here q : Path) (hq : q ≠ []) (h : f.walk here q = .ok (.file (some text))) :
      f.walk here q.dropLast = .ok .directory := by
    induction q generalizing here with
    | nil => exact (hq rfl).elim
    | cons name q ih =>
        rw [walk] at h
        split at h
        · rename_i hhere
          cases q with
          | nil => rw [List.dropLast_singleton, walk, hhere]
          | cons next q =>
              rw [List.dropLast_cons_cons, walk, hhere]
              exact ih _ (List.cons_ne_nil next q) h
        · cases h
        · cases h
  exact ⟨hp, hwalk [] p hp hlook⟩

theorem read_rename {f g : Files} {p q : Path} {text : String} (hread : f.read p = .ok text)
    (h : f.rename p q = .ok g) : g.read q = .ok text := by
  rw [rename_eq_put hread] at h
  exact read_write h

/-! ## Writing once more

A file that was written can be written again: the directories that lead to it
are there, and nothing but a file is in its place.
-/

theorem node?_remove (f : Files) (p : Path) {q : Path} (hq : q ≠ []) :
    (f.remove p).node? q = if p.isPrefixOf q then none else f.node? q := by
  unfold node? remove
  rw [if_neg hq, if_neg hq, List.find?_filter]
  split
  · rename_i hunder
    rw [List.find?_eq_none.mpr, Option.map_none]
    intro m _ hm
    simp only [decide_eq_true_eq] at hm
    obtain ⟨hkept, rfl⟩ := hm
    simp [hunder] at hkept
  · rename_i hunder
    congr 2
    funext m
    by_cases hm : m.1 = q
    · simp [hm, hunder]
    · simp [hm]

theorem walk_remove (f : Files) (p : Path) {here q : Path} (h : (here ++ q).length < p.length) :
    (f.remove p).walk here q = f.walk here q := by
  have hnode (r : Path) (hr : r.length < p.length) : (f.remove p).node? r = f.node? r := by
    by_cases hroot : r = []
    · rw [hroot]
      rfl
    · rw [node?_remove f p hroot, if_neg]
      intro hunder
      have hle := (List.isPrefixOf_iff_prefix.mp hunder).length_le
      omega
  induction q generalizing here with
  | nil =>
      rw [walk, walk, hnode here (by simpa using h)]
  | cons name q ih =>
      rw [List.length_append] at h
      rw [walk, walk, hnode here (by omega), ih (by simp at h ⊢; omega)]

theorem node?_of_walk {f : Files} {here q : Path} (h : f.walk here q = .ok .directory) :
    f.node? here = some .directory := by
  unfold walk at h
  split at h
  · split at h
    · rename_i hnode
      rw [hnode, Except.ok.inj h]
    · cases h
  · split at h
    · rename_i hnode
      exact hnode
    · cases h
    · cases h

theorem look_of_prefix {f : Files} {p q : Path} (h : f.look p = .ok .directory) (hq : q <+: p) :
    f.look q = .ok .directory := by
  obtain ⟨rest, rfl⟩ := hq
  have hwalk (here q : Path) (h : f.walk here (q ++ rest) = .ok .directory) :
      f.walk here q = .ok .directory := by
    induction q generalizing here with
    | nil => rw [walk, node?_of_walk h]
    | cons name q ih =>
        have hhere := node?_of_walk h
        rw [List.cons_append, walk, hhere] at h
        rw [walk, hhere]
        exact ih _ h
  exact hwalk [] q h

theorem createDirectories_of_look {f : Files} {p : Path} (h : f.look p = .ok .directory) :
    f.createDirectories p = .ok f := by
  have hgo (here q : Path) (h : f.walk here q = .ok .directory) :
      createDirectories.go f here q = .ok f := by
    induction q generalizing here with
    | nil => rfl
    | cons name q ih =>
        have hfirst := node?_of_walk h
        rw [walk, hfirst] at h
        simp only [createDirectories.go, node?_of_walk h]
        exact ih _ h
  exact hgo [] p h

/-- A file is written beside its place and then moved there. -/
theorem rename_written {f : Files} {p q : Path} (hp : f.node? p ≠ some .directory)
    (hq : f.node? q ≠ some .directory) (hdirectory : f.look q.dropLast = .ok .directory)
    (hbeside : p.dropLast = q.dropLast) (hlength : p.length = q.length) (text : String) :
    ∃ g h, f.write p text = .ok g ∧ g.rename p q = .ok h := by
  have hwrite : f.write p text = .ok (f.replace p (.file (some text))) :=
    put_eq_ok_iff.mpr ⟨hbeside ▸ hdirectory, hp, rfl⟩
  refine ⟨_, ((f.replace p (.file (some text))).remove p).replace q (.file (some text)), hwrite, ?_⟩
  rw [rename_eq_put (read_write hwrite)]
  refine put_eq_ok_iff.mpr ⟨?_, ?_, rfl⟩
  · have hlook := look_replace f (ne_nil_of_node? hp) (.file (some text))
    rw [hbeside] at hlook
    rw [look, walk_remove _ p (hlength ▸ length_dropLast_lt (ne_nil_of_node? hq)), ← look, hlook]
    exact hdirectory
  · rw [node?_remove _ p (ne_nil_of_node? hq)]
    split
    · exact nofun
    · rename_i hunder
      have hne : q ≠ p := by
        rintro rfl
        exact hunder (List.isPrefixOf_iff_prefix.mpr (List.prefix_refl q))
      rw [node?_replace_of_ne f hne]
      exact hq

theorem node?_of_rename {f g : Files} {p q : Path} {text : String} (hp : p ≠ [])
    (hread : f.read p = .ok text) (h : f.rename p q = .ok g) : g.node? p ≠ some .directory := by
  rw [rename_eq_put hread] at h
  obtain ⟨_, hfree, rfl⟩ := put_eq_ok_iff.mp h
  by_cases hsame : p = q
  · rw [hsame, node?_replace_self _ (ne_nil_of_node? hfree)]
    exact nofun
  · have hself : p.isPrefixOf p = true := List.isPrefixOf_iff_prefix.mpr (List.prefix_refl p)
    rw [node?_replace_of_ne _ hsame, node?_remove f p hp, if_pos hself]
    exact nofun

/-! ## Where no file is

Nothing is found under a path as long as nothing is recorded there, and no file is in the
way. More directories change nothing about that.
-/

/-- Whatever is recorded lies in a directory. -/
def Rooted (f : Files) : Prop :=
  ∀ p name, f.node? (p ++ [name]) ≠ none → f.node? p = some .directory

/-- Nothing is recorded under the path, and all that leads there is no file. -/
structure Vacant (f : Files) (p : Path) : Prop where
  free : f.node? p = none
  clear : ∀ r, r <+: p → ∀ text, f.node? r ≠ some (.file text)

theorem Rooted.node?_append {f : Files} (h : f.Rooted) {p : Path} (hp : f.node? p = none)
    (q : Path) : f.node? (p ++ q) = none := by
  induction q generalizing p with
  | nil => rwa [List.append_nil]
  | cons name q ih =>
      have hnext : f.node? (p ++ [name]) = none := by
        cases hname : f.node? (p ++ [name]) with
        | none => rfl
        | some n =>
            have hdirectory := h p name (hname ▸ nofun)
            cases hp.symm.trans hdirectory
      rw [List.append_cons]
      exact ih hnext

theorem Vacant.read {f : Files} {p : Path} (h : f.Vacant p) : f.read p = .error .notFound := by
  have hwalk (here q : Path) (hfree : f.node? (here ++ q) = none)
      (hclear : ∀ r, r <+: q → ∀ text, f.node? (here ++ r) ≠ some (.file text)) :
      f.walk here q = .error .notFound := by
    induction q generalizing here with
    | nil =>
        rw [List.append_nil] at hfree
        rw [walk, hfree]
    | cons name q ih =>
        have hhere := hclear [] List.nil_prefix
        rw [List.append_nil] at hhere
        rw [walk]
        split
        · refine ih _ (by rwa [List.append_assoc]) fun r hr => ?_
          rw [List.append_assoc]
          exact hclear (name :: r) (List.cons_prefix_cons.mpr ⟨rfl, hr⟩)
        · rename_i hfile
          exact (hhere _ hfile).elim
        · rfl
  have hlook : f.look p = .error .notFound := hwalk [] p h.free h.clear
  rw [Files.read, hlook]

theorem Rooted.vacant {f : Files} (h : f.Rooted) {p : Path} (hp : f.read p = .error .notFound) :
    f.Vacant p := by
  have hlook : f.look p = .error .notFound := by
    unfold Files.read at hp
    split at hp
    · cases hp
    · cases hp
    · cases hp
    · rename_i hlook
      exact hlook.trans (congrArg _ (Except.error.inj hp))
  have hwalk (here q : Path) (hw : f.walk here q = .error .notFound) :
      f.node? (here ++ q) = none ∧
        ∀ r, r <+: q → ∀ text, f.node? (here ++ r) ≠ some (.file text) := by
    induction q generalizing here with
    | nil =>
        rw [walk] at hw
        split at hw
        · cases hw
        · rename_i hnone
          rw [List.append_nil]
          refine ⟨hnone, fun r hr => ?_⟩
          rw [List.prefix_nil.mp hr, List.append_nil, hnone]
          exact nofun
    | cons name q ih =>
        rw [walk] at hw
        split at hw
        · rename_i hhere
          obtain ⟨hfree, hclear⟩ := ih _ hw
          rw [List.append_assoc] at hfree
          refine ⟨hfree, fun r hr => ?_⟩
          cases r with
          | nil =>
              rw [List.append_nil, hhere]
              exact nofun
          | cons next r =>
              obtain ⟨rfl, htail⟩ := List.cons_prefix_cons.mp hr
              rw [List.append_cons]
              exact hclear r htail
        · cases hw
        · rename_i hnone
          refine ⟨h.node?_append hnone _, fun r _ => ?_⟩
          rw [h.node?_append hnone r]
          exact nofun
  obtain ⟨hfree, hclear⟩ := hwalk [] p hlook
  exact ⟨hfree, hclear⟩

theorem node?_createDirectories {f g : Files} {p : Path} (h : f.createDirectories p = .ok g)
    (r : Path) : g.node? r = f.node? r ∨ g.node? r = some .directory ∧ r <+: p := by
  have hgo (here q : Path) (hq : here ++ q = p) (f : Files)
      (h : createDirectories.go f here q = .ok g) :
      g.node? r = f.node? r ∨ g.node? r = some .directory ∧ r <+: p := by
    induction q generalizing here f with
    | nil =>
        rw [createDirectories.go, Except.ok.injEq] at h
        exact .inl (h ▸ rfl)
    | cons name q ih =>
        have hnext : here ++ [name] ++ q = p := by rw [← hq, List.append_assoc]; rfl
        simp only [createDirectories.go] at h
        split at h
        · exact ih _ hnext f h
        · cases h
        · rcases ih _ hnext _ h with hsame | hmade
          · by_cases hr : r = here ++ [name]
            · rw [hr, node?_replace_self _ (by simp)] at hsame
              exact .inr ⟨hr ▸ hsame, hr ▸ hnext ▸ List.prefix_append _ q⟩
            · rw [node?_replace_of_ne _ hr] at hsame
              exact .inl hsame
          · exact .inr hmade
  exact hgo [] p rfl f h

theorem Vacant.createDirectories {f g : Files} {p q : Path} (h : f.Vacant p)
    (hq : q.length < p.length) (hg : f.createDirectories q = .ok g) : g.Vacant p where
  free := by
    rcases node?_createDirectories hg p with hsame | ⟨_, hprefix⟩
    · rw [hsame, h.free]
    · exact absurd hprefix.length_le (Nat.not_le.mpr hq)
  clear r hr text := by
    rcases node?_createDirectories hg r with hsame | ⟨hmade, _⟩
    · rw [hsame]
      exact h.clear r hr text
    · rw [hmade]
      exact nofun

theorem Vacant.put {f g : Files} {p q : Path} {text : Option String} (h : f.Vacant p)
    (hne : p ≠ q) (hlength : p.length ≤ q.length) (hg : f.put q text = .ok g) : g.Vacant p := by
  obtain ⟨_, _, rfl⟩ := put_eq_ok_iff.mp hg
  have hnode (r : Path) (hr : r <+: p) : (f.replace q (.file text)).node? r = f.node? r := by
    refine node?_replace_of_ne f ?_ _
    rintro rfl
    exact hne (hr.eq_of_length_le hlength).symm
  exact ⟨(hnode p (List.prefix_refl p)).trans h.free, fun r hr => hnode r hr ▸ h.clear r hr⟩

end EdgeAgent.Files
