import SourceScan.Proofs.Tree.Proper
import SourceScan.Tree.Root

/-!
# Where the path of a file leads

A path of proper names is followed name by name. By directories it leads down to the last name
(`followSteps_dirs`), and from there to the entry itself or, if that is a link, to where the link leads
(`place_of_follow_text`). What a directory holds under a name is opened by the name alone, unless it is a link
(`open?_name`).
-/

namespace SourceScan

namespace FileName

variable {name : CodeString}

theorem stored_of_isProper (h : isProper name = true) : stored name = name := by
  simp only [isProper, Bool.and_eq_true, beq_iff_eq] at h
  exact h.2

theorem ne_nil_of_isProper (h : isProper name = true) : name ≠ [] := by
  rintro rfl
  exact absurd h (by decide)

theorem ne_here_of_isProper (h : isProper name = true) : name ≠ Path.here := by
  rintro rfl
  exact absurd h (by decide)

theorem ne_up_of_isProper (h : isProper name = true) : name ≠ Path.up := by
  rintro rfl
  exact absurd h (by decide)

end FileName

namespace RelativePath

variable {p : RelativePath}

theorem nil_not_mem_components_text (hp : p ≠ []) (h : ∀ name ∈ p, FileName.isProper name = true) :
    [] ∉ FileName.components p.text := by
  rw [components_text hp fun name hname => FileName.slash_not_mem (h name hname)]
  exact fun hmem => FileName.ne_nil_of_isProper (h [] hmem) rfl

theorem isAbsolute_text (hp : p ≠ []) (h : ∀ name ∈ p, FileName.isProper name = true) :
    Path.isAbsolute p.text = false := by
  have hnil := nil_not_mem_components_text hp h
  cases htext : p.text with
  | nil => rfl
  | cons c rest =>
    rw [Path.isAbsolute, List.head?_cons, Option.some_beq_some, beq_eq_false_iff_ne]
    rintro rfl
    rw [htext, ← List.nil_append (FileName.slash :: rest), FileName.components_append_slash] at hnil
    exact hnil (List.mem_append_left _ (List.mem_singleton_self []))

/-- The steps of a path of proper names are these names. -/
theorem steps_text (hp : p ≠ []) (h : ∀ name ∈ p, FileName.isProper name = true) :
    Path.steps p.text = p := by
  have hnil := nil_not_mem_components_text hp h
  have hlast : (p.text.getLast? == some FileName.slash) = false := by
    rw [beq_eq_false_iff_ne]
    intro hlast
    obtain ⟨before, hbefore⟩ := List.getLast?_eq_some_iff.mp hlast
    rw [hbefore, FileName.components_append_slash] at hnil
    exact hnil (List.mem_append_right _ (List.mem_singleton_self []))
  have hcomponents := components_text hp fun name hname => FileName.slash_not_mem (h name hname)
  rw [Path.steps, hlast, hcomponents, if_neg Bool.false_ne_true, List.append_nil]
  refine List.filter_eq_self.mpr fun name hname => ?_
  rw [bne_iff_ne]
  exact FileName.ne_nil_of_isProper (h name hname)

end RelativePath

namespace Node

variable {n k top : Node} {name : CodeString} {path dirs : Location} {here root : Door}
  {links : Nat} {rest : List CodeString}

theorem at?_append (n : Node) (path more : Location) :
    n.at? (path ++ more) = (n.at? path).bind (at? · more) := by
  induction path generalizing n with
  | nil => rfl
  | cons name path ih =>
    rw [List.cons_append, at?, at?, Option.bind_assoc]
    cases n.child? name with
    | none => rfl
    | some m => exact ih m

/-- What a proper tree holds at a path is what is found there. -/
theorem Proper.at?_of_holds (hp : n.Proper) (h : n.Holds path k) : n.at? path = some k := by
  induction h with
  | here => rfl
  | @entry listable entries name m k rest hmem _ ih =>
    have hname := FileName.stored_of_isProper (hp.names _ hmem)
    have hlookup : entries.lookup name = some m := by
      obtain ⟨before, after, hentries⟩ := List.append_of_mem hmem
      refine List.lookup_eq_some_iff.mpr ⟨before, after, hentries, fun e he => ?_⟩
      have hdistinct := hp.distinct
      rw [hentries, List.map_append, List.map_cons] at hdistinct
      rw [bne_iff_ne]
      rintro rfl
      exact (List.nodup_append.mp hdistinct).2.2 _ (List.mem_map_of_mem he) _ List.mem_cons_self rfl
    rw [at?, child?, hname, hlookup]
    exact ih (hp.children _ hmem)

/-- What a name leads to from a directory. -/
theorem followSteps_cons {place : Location} {listable : Bool} {entries : List (CodeString × Node)}
    (hdir : top.at? place = some (dir listable entries)) (hname : FileName.isProper name = true) :
    top.followSteps links place (name :: rest) =
      match top.at? (place ++ [name]), links with
      | none, _ => .error .missing
      | some (link _), 0 => .error .tooManyLinks
      | some (link target), links + 1 =>
        if Path.isAbsolute target then .error .missing
        else top.followSteps links place (Path.steps target ++ rest)
      | some _, links => top.followSteps links (place ++ [name]) rest := by
  have hhere := beq_eq_false_iff_ne.mpr (FileName.ne_here_of_isProper hname)
  have hup := beq_eq_false_iff_ne.mpr (FileName.ne_up_of_isProper hname)
  rw [followSteps, hdir]
  simp only [hhere, hup, Bool.false_eq_true, if_false]
  cases top.at? (place ++ [name]) with
  | none => rfl
  | some k => cases k <;> cases links <;> rfl

/-- By a name that is that of an entry and of no link, the way leads to the entry. -/
theorem followSteps_enter {place : Location} {listable : Bool} {entries : List (CodeString × Node)}
    (hdir : top.at? place = some (dir listable entries)) (hname : FileName.isProper name = true)
    (hentry : top.at? (place ++ [name]) = some k) (hlink : ∀ target, k ≠ link target) :
    top.followSteps links place (name :: rest) = top.followSteps links (place ++ [name]) rest := by
  rw [followSteps_cons hdir hname, hentry]
  cases k with
  | link target => exact absurd rfl (hlink target)
  | _ => rfl

/-- Each name on the way leads from a directory to a directory in it. -/
def IsWay (top : Node) (place : Location) (dirs : Location) : Prop :=
  ∀ e x, e ++ [x] <+: dirs → (∃ l es, top.at? (place ++ e) = some (dir l es)) ∧
    ∃ l es, top.at? (place ++ e ++ [x]) = some (dir l es)

/-- By directories the way leads down. -/
theorem followSteps_dirs {place : Location} (h : top.IsWay place dirs)
    (hnames : ∀ x ∈ dirs, FileName.isProper x = true) :
    top.followSteps links place (dirs ++ rest) = top.followSteps links (place ++ dirs) rest := by
  induction dirs generalizing place with
  | nil => rw [List.nil_append, List.append_nil]
  | cons x dirs ih =>
    obtain ⟨⟨l, es, hdir⟩, l', es', hentry⟩ := h [] x ⟨dirs, rfl⟩
    rw [List.append_nil] at hdir hentry
    have hrest : top.IsWay (place ++ [x]) dirs := by
      intro e y he
      have hnext := h (x :: e) y (List.cons_prefix_cons.mpr ⟨rfl, he⟩)
      rwa [List.append_cons] at hnext
    rw [List.cons_append, followSteps_enter hdir (hnames x List.mem_cons_self) hentry nofun,
      ih hrest fun y hy => hnames y (List.mem_cons_of_mem x hy), ← List.append_cons]

/-- A name is looked for in the directory itself. -/
theorem follow_name (top : Node) (here : Door) (hname : FileName.isProper name = true) :
    top.follow here name = top.followSteps here.links here.place [name] := by
  have hone : ∀ x ∈ [name], FileName.isProper x = true := fun x hx => List.mem_singleton.mp hx ▸ hname
  have habsolute := RelativePath.isAbsolute_text (List.cons_ne_nil name []) hone
  have hsteps := RelativePath.steps_text (List.cons_ne_nil name []) hone
  rw [RelativePath.text_singleton] at habsolute hsteps
  rw [follow, habsolute, if_neg Bool.false_ne_true, hsteps]

/-- By its name an entry that is no link is opened as it is, and nothing where there is none. -/
theorem open?_name {listable : Bool} {entries : List (CodeString × Node)}
    (hdir : top.at? here.place = some (dir listable entries)) (hname : FileName.isProper name = true)
    (hlink : ∀ target, entries.lookup name ≠ some (link target)) :
    top.open? here name = entries.lookup name := by
  have hat : top.at? (here.place ++ [name]) = entries.lookup name := by
    rw [at?_append, hdir, Option.bind_some, at?, child?, FileName.stored_of_isProper hname]
    exact Option.bind_fun_some _
  rw [open?, follow_name top here hname]
  cases hentry : entries.lookup name with
  | none =>
    rw [followSteps_cons hdir hname, hat, hentry]
    rfl
  | some k =>
    rw [followSteps_enter hdir hname (hat.trans hentry) fun target hk => hlink target (hk ▸ hentry), followSteps]
    exact hat.trans hentry

/-- One name leads to its entry, or by a link. -/
theorem place_of_followSteps {place : Location} {d : Door} (hname : FileName.isProper name = true)
    (h : top.followSteps links place [name] = .ok d) :
    d.place = place ++ [name] ∨ ∃ target, top.at? (place ++ [name]) = some (link target) := by
  by_cases hdir : ∃ l es, top.at? place = some (dir l es)
  · obtain ⟨l, es, hdir⟩ := hdir
    rw [followSteps_cons hdir hname] at h
    split at h
    · cases h
    · cases h
    · next target _ htarget => exact Or.inr ⟨target, htarget⟩
    · rw [followSteps] at h
      cases h
      exact Or.inl rfl
  · rw [followSteps] at h
    split at h
    · next l es heq => exact absurd ⟨l, es, heq⟩ hdir
    · cases h

/-- The path of a file leads by its directories to the place of the last name, or on by the link there. -/
theorem place_of_follow_text {d : Door} (hway : top.IsWay root.place dirs)
    (hnames : ∀ x ∈ dirs ++ [name], FileName.isProper x = true)
    (h : top.follow root (RelativePath.text (dirs ++ [name])) = .ok d) :
    d.place = root.place ++ dirs ++ [name] ∨
      (∃ target, top.at? (root.place ++ dirs ++ [name]) = some (link target)) ∧
        top.follow (root.below dirs) name = .ok d := by
  have hname := hnames name (List.mem_append_right _ (List.mem_singleton_self name))
  have hdirs := fun x hx => hnames x (List.mem_append_left [name] hx)
  rw [follow, RelativePath.isAbsolute_text (by simp) hnames, if_neg Bool.false_ne_true,
    RelativePath.steps_text (by simp) hnames, followSteps_dirs hway hdirs] at h
  refine (place_of_followSteps hname h).imp_right fun hlink => ⟨hlink, ?_⟩
  exact (follow_name top (root.below dirs) hname).trans h

/-- A request names the directory itself by a dot. -/
theorem named_here (listable : Bool) (entries : List (CodeString × Node)) :
    (dir listable entries).named "." = .ok (some (.top, dir listable entries)) := by
  have hresolve : (dir listable entries).resolve "." = .ok (.at (.inside [])) := by
    rw [resolve, show Path.names "." = [] by decide, resolveNames]
    rfl
  have hshort : (dir listable entries).isTooLong (.inside []) = false := rfl
  have hopen : (dir listable entries).openSpot (.inside []) = .ok (some (.top, dir listable entries)) := by
    rw [openSpot, hshort, if_neg Bool.false_ne_true, followSteps]
    rfl
  rw [named, hresolve]
  exact hopen

/-- A link of the tree leads to a place, by no more links than may be taken. -/
def LinkLeadsTo (top : Node) (links : Nat) (place : Location) : Prop :=
  ∃ here name target d, top.at? (here ++ [name]) = some (link target) ∧
    top.follow ⟨here, links⟩ name = .ok d ∧ d.place.map FileName.stored = place

end Node

end SourceScan
