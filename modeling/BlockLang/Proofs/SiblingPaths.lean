import BlockLang.Proofs.FileSlots

/-! # Siblings

A file is written beside its target: the path that it is written to has the slot of the target
with a longer name. The text of that path keeps the way to the directory up to segments that lead
nowhere, so the way is compared without these.
-/

namespace BlockLang

namespace Path

variable {cs : List Char} {init body : List (List Char)} {last : List Char}

/-! ## Segments -/

theorem segments_ne_nil (cs : List Char) : segments cs ≠ [] := by
  cases cs with
  | nil => simp [segments]
  | cons c rest =>
      unfold segments
      split
      · simp
      · split_ifs <;> simp

theorem segments_slash (cs : List Char) : segments ('/' :: cs) = [] :: segments cs := by
  rw [segments]
  split
  next hnil => exact absurd hnil (segments_ne_nil cs)
  next hcons => rw [if_pos rfl, hcons]

theorem segments_cons {c : Char} (hc : c ≠ '/') {first : List Char} {more : List (List Char)}
    (h : segments cs = first :: more) : segments (c :: cs) = (c :: first) :: more := by
  rw [segments, h]
  simp only [if_neg hc]

/-- A slash ends a segment, whatever stands around it, so a path can be cut at
any of its slashes. -/
theorem segments_append_slash (cs ds : List Char) :
    segments (cs ++ '/' :: ds) = segments cs ++ segments ds := by
  induction cs with
  | nil => exact segments_slash ds
  | cons c rest ih =>
      by_cases hc : c = '/'
      · rw [hc, List.cons_append, segments_slash, segments_slash, ih, List.cons_append]
      · obtain ⟨first, more, hrest⟩ := List.exists_cons_of_ne_nil (segments_ne_nil rest)
        rw [hrest, List.cons_append] at ih
        rw [List.cons_append, segments_cons hc ih, segments_cons hc hrest, List.cons_append]

theorem segments_of_not_mem (h : '/' ∉ cs) : segments cs = [cs] := by
  induction cs with
  | nil => rfl
  | cons c rest ih =>
      obtain ⟨hc, hrest⟩ := not_or.mp (mt List.mem_cons.mpr h)
      exact segments_cons (Ne.symm hc) (ih hrest)

theorem joined_cons (segment : List Char) (h : body ≠ []) :
    joined (segment :: body) = segment ++ '/' :: joined body := by
  obtain ⟨next, more, rfl⟩ := List.exists_cons_of_ne_nil h
  rfl

/-- A path is its segments with slashes between them. -/
theorem joined_segments (cs : List Char) : joined (segments cs) = cs := by
  induction cs with
  | nil => rfl
  | cons c rest ih =>
      by_cases hc : c = '/'
      · rw [hc, segments_slash, joined_cons [] (segments_ne_nil rest), ih, List.nil_append]
      · obtain ⟨first, more, hrest⟩ := List.exists_cons_of_ne_nil (segments_ne_nil rest)
        rw [segments_cons hc hrest]
        rw [hrest] at ih
        cases more with
        | nil => rw [← ih]; rfl
        | cons next more => rw [← ih]; rfl

/-- A slash stands before the last of several segments, and behind it only this
one. -/
theorem exists_joined_concat (hinit : init ≠ []) (last : List Char) :
    ∃ front, joined (init ++ [last]) = front ++ '/' :: last := by
  induction init with
  | nil => exact absurd rfl hinit
  | cons segment rest ih =>
      rw [List.cons_append, joined_cons segment (by simp)]
      by_cases hrest : rest = []
      · exact ⟨segment, by rw [hrest]; rfl⟩
      · obtain ⟨front, hfront⟩ := ih hrest
        exact ⟨segment ++ '/' :: front, by rw [hfront, List.append_assoc, List.cons_append]⟩

theorem not_mem_of_mem_segments (h : last ∈ segments cs) : '/' ∉ last := by
  induction cs generalizing last with
  | nil =>
      rw [List.mem_singleton.mp h]
      exact List.not_mem_nil
  | cons c rest ih =>
      by_cases hc : c = '/'
      · rw [hc, segments_slash] at h
        rcases List.mem_cons.mp h with rfl | hrest
        · exact List.not_mem_nil
        · exact ih hrest
      · obtain ⟨first, more, hrest⟩ := List.exists_cons_of_ne_nil (segments_ne_nil rest)
        rw [segments_cons hc hrest] at h
        rw [hrest] at ih
        rcases List.mem_cons.mp h with rfl | hmore
        · simp only [List.mem_cons, not_or]
          exact ⟨Ne.symm hc, ih List.mem_cons_self⟩
        · exact ih (List.mem_cons_of_mem _ hmore)

/-- Segments are found again in the path that they make, if there is no slash in
any of them. -/
theorem segments_joined (hbody : body ≠ []) (h : ∀ segment ∈ body, '/' ∉ segment) :
    segments (joined body) = body := by
  induction body with
  | nil => exact absurd rfl hbody
  | cons segment rest ih =>
      obtain ⟨hsegment, hrest⟩ := List.forall_mem_cons.mp h
      by_cases hnil : rest = []
      · rw [hnil]
        exact segments_of_not_mem hsegment
      · rw [joined_cons segment hnil, segments_append_slash, segments_of_not_mem hsegment,
          ih hnil hrest, List.singleton_append]

theorem head?_joined_ne {first : List Char} (hne : first ≠ []) (h : '/' ∉ first) :
    (joined (first :: body)).head? ≠ some '/' := by
  obtain ⟨c, rest, rfl⟩ := List.exists_cons_of_ne_nil hne
  have hc : c ≠ '/' := fun heq => h (heq ▸ List.mem_cons_self)
  cases body with
  | nil => simpa [joined] using hc
  | cons next more => simpa [joined] using hc

/-! ## Names -/

def names (segments : List (List Char)) : List (List Char) := segments.filter (!isIdle ·)

theorem names_append (front back : List (List Char)) :
    names (front ++ back) = names front ++ names back := List.filter_append ..

theorem names_cons_of_idle {segment : List Char} (h : isIdle segment = true) :
    names (segment :: body) = names body :=
  List.filter_cons_of_neg (by simp [h])

/-- What is dropped at the end of a path leads nowhere: these are empty segments
and dots. -/
theorem exists_idleEnd (body : List (List Char)) :
    ∃ idle, body = dropIdleEnd body ++ idle ∧ names idle = [] := by
  refine ⟨(body.reverse.takeWhile isIdle).reverse, ?_, ?_⟩
  · rw [dropIdleEnd, ← List.reverse_append, List.takeWhile_append_dropWhile, List.reverse_reverse]
  · apply List.filter_eq_nil_iff.mpr
    intro segment hsegment
    simp [List.mem_takeWhile_imp (List.mem_reverse.mp hsegment)]

theorem names_dropIdleEnd (body : List (List Char)) : names (dropIdleEnd body) = names body := by
  obtain ⟨idle, hbody, hidle⟩ := exists_idleEnd body
  conv => rhs; rw [hbody, names_append, hidle, List.append_nil]

theorem dropIdleEnd_isPrefix (body : List (List Char)) : dropIdleEnd body <+: body := by
  obtain ⟨idle, hbody, -⟩ := exists_idleEnd body
  exact ⟨idle, hbody.symm⟩

theorem names_segments_joined (h : ∀ segment ∈ body, '/' ∉ segment) :
    names (segments (joined body)) = names body := by
  by_cases hbody : body = []
  · rw [hbody]
    rfl
  · rw [segments_joined hbody h]

/-- Whether a path has a segment at its end that can name a file, behind the
given segments. -/
structure EndsIn (path : String) (init : List (List Char)) (last : List Char) : Prop where
  split : segments path.toList = init ++ [last]
  active : isIdle last = false
  notAbove : last ≠ ['.', '.']

variable {path : String}

theorem EndsIn.ne_nil (h : EndsIn path init last) : last ≠ [] := by
  rintro rfl
  cases h.active

theorem EndsIn.not_mem (h : EndsIn path init last) : '/' ∉ last := by
  have hlast : last ∈ segments path.toList := by
    rw [h.split]
    exact List.mem_append_right _ List.mem_cons_self
  exact not_mem_of_mem_segments hlast

theorem EndsIn.getLast?_eq (h : EndsIn path init last) : path.toList.getLast? = last.getLast? := by
  rw [← joined_segments path.toList, h.split]
  by_cases hinit : init = []
  · rw [hinit]
    rfl
  · obtain ⟨front, hfront⟩ := exists_joined_concat hinit last
    rw [hfront, List.getLast?_append_cons, List.getLast?_cons_of_ne_nil h.ne_nil]

/-- A dot before a slash, or alone, leads nowhere, so it may stand where the
directory of a path would be empty. -/
theorem names_segments_dot (h : ∀ segment ∈ body, '/' ∉ segment) :
    names (segments ('.' :: joined ([] :: body))) = names body := by
  by_cases hbody : body = []
  · rw [hbody]
    rfl
  · have hdot : segments ('.' :: joined ([] :: body)) = ['.'] :: segments (joined body) := by
      rw [joined_cons [] hbody]
      exact segments_append_slash ['.'] (joined body)
    rw [hdot, names_cons_of_idle rfl, names_segments_joined h]

/-- The text of the directory of a path that ends in a name: it leads the same
way. -/
structure LeadsAs (directory : List Char) (path : String) (init : List (List Char)) : Prop where
  way : names (segments directory) = names init
  head : directory.head? = some '/' ↔ path.toList.head? = some '/'

/-- The parts of a path that ends in a name are the name and, before it, the
directory. -/
theorem EndsIn.exists_parts (h : EndsIn path init last) :
    ∃ before, (parts path).body = before ++ [last] ∧
      LeadsAs ((parts path).start ++ joined (dropIdleEnd before)) path init := by
  have hsegments := h.split
  have hslash : ∀ segment ∈ init, '/' ∉ segment := by
    intro segment hsegment
    have hmem : segment ∈ segments path.toList := by
      rw [hsegments]
      exact List.mem_append_left _ hsegment
    exact not_mem_of_mem_segments hmem
  unfold parts
  split
  next rest hpath =>
    rw [hpath, segments_slash] at hsegments
    cases init with
    | nil => exact absurd (List.cons.inj hsegments).1.symm h.ne_nil
    | cons first init =>
        obtain ⟨rfl, hrest⟩ := List.cons.inj hsegments
        have hinit := (List.forall_mem_cons.mp hslash).2
        refine ⟨init, hrest, ?_, by simp [hpath]⟩
        rw [List.singleton_append, segments_slash, names_cons_of_idle rfl,
          names_segments_joined fun s hs => hinit s ((dropIdleEnd_isPrefix init).mem hs),
          names_dropIdleEnd, names_cons_of_idle rfl]
  next hpath =>
    -- The path is a dot, which names no file.
    have hdot : segments ['.'] = [] ++ [['.']] := rfl
    rw [hpath, hdot] at hsegments
    have hactive := h.active
    rw [← (List.append_singleton_inj.mp hsegments).2] at hactive
    cases hactive
  next rest hpath =>
    have hdot : segments ('.' :: '/' :: rest) = ['.'] :: segments rest :=
      segments_append_slash ['.'] rest
    rw [hpath, hdot] at hsegments
    cases init with
    | nil =>
        have hactive := h.active
        rw [← (List.cons.inj hsegments).1] at hactive
        cases hactive
    | cons first init =>
        obtain ⟨rfl, hrest⟩ := List.cons.inj hsegments
        have hinit := (List.forall_mem_cons.mp hslash).2
        refine ⟨[] :: init, by rw [segments_slash, hrest]; rfl, ?_, by simp [hpath]⟩
        have hnames : names (dropIdleEnd ([] :: init)) = names (['.'] :: init) :=
          (names_dropIdleEnd _).trans rfl
        rw [← hnames]
        obtain hnil | ⟨rest, hcons, hstart⟩ :=
          List.prefix_cons_iff.mp (dropIdleEnd_isPrefix ([] :: init))
        · rw [hnil]
          rfl
        · rw [hcons, List.singleton_append,
            names_segments_dot fun s hs => hinit s (hstart.mem hs)]
          rfl
  next hslashed hdot hdotted =>
    refine ⟨init, hsegments, ?_, ?_⟩
    · rw [List.nil_append, names_segments_joined fun s hs => hslash s
        ((dropIdleEnd_isPrefix init).mem hs), names_dropIdleEnd]
    · have hhead : path.toList.head? ≠ some '/' := by
        intro hhead
        obtain ⟨rest, hrest⟩ := List.head?_eq_some_iff.mp hhead
        exact hslashed rest hrest
      refine iff_of_false ?_ hhead
      rw [List.nil_append]
      cases init with
      | nil => simp [dropIdleEnd, joined]
      | cons first init =>
          -- The first segment is not empty, or else the path would begin with a slash.
          have hfirst : first ≠ [] := by
            rintro rfl
            rw [← joined_segments path.toList, hsegments, List.cons_append,
              joined_cons [] (by simp)] at hhead
            exact hhead rfl
          obtain hnil | ⟨rest, hcons, -⟩ :=
            List.prefix_cons_iff.mp (dropIdleEnd_isPrefix (first :: init))
          · simp [hnil, joined]
          · rw [hcons]
            exact head?_joined_ne hfirst (hslash first List.mem_cons_self)

def suffix : List Char := ['.', 't', 'm', 'p']

/-- The path beside a target is the name with the suffix, seen from the
directory of the target. -/
theorem EndsIn.exists_temporary (h : EndsIn path init last) :
    ∃ directory, LeadsAs directory path init ∧
      temporary path = join (String.ofList directory) (String.ofList (last ++ suffix)) := by
  obtain ⟨before, hbody, hleads⟩ := h.exists_parts
  have hsplit : splitLast? path = some (⟨(parts path).start, before⟩, last) := by
    simp [splitLast?, hbody, h.active]
  have hname : fileName? path = some (String.ofList last) := by
    simp [fileName?, hsplit, h.notAbove]
  have hparent : parent? path =
      some (String.ofList ((parts path).start ++ joined (dropIdleEnd before))) := by
    simp only [parent?, hsplit]
  refine ⟨_, hleads, ?_⟩
  simp only [temporary, withFileName, hname, hparent, Option.getD_some, String.ofList_append]
  rfl

/-- A name seen from a directory comes behind the segments of the directory,
whether or not a slash has to be put between them. -/
theorem LeadsAs.exists_join {directory : List Char} (h : LeadsAs directory path init)
    {name : List Char} (hslash : '/' ∉ name)
    (hactive : isIdle name = false) (habove : name ≠ ['.', '.']) :
    ∃ init', EndsIn (join (String.ofList directory) (String.ofList name)) init' name ∧
      names init' = names init ∧
      ((join (String.ofList directory) (String.ofList name)).toList.head? = some '/' ↔
        path.toList.head? = some '/') := by
  have hname := segments_of_not_mem hslash
  have hhead : name.head? ≠ some '/' := fun hhead => hslash (List.mem_of_head? hhead)
  unfold join
  rw [String.toList_ofList, String.toList_ofList, if_neg hhead]
  -- Joining adds a slash unless the directory is empty or ends in one.
  by_cases hempty : directory = []
  · rw [if_pos (by simp [hempty])]
    refine ⟨[], ⟨by simp [hempty, hname], hactive, habove⟩, ?_, ?_⟩
    · rw [← h.way, hempty]
      rfl
    · rw [← h.head]
      simp [hempty, hhead]
  · by_cases hends : directory.getLast? = some '/'
    · obtain ⟨front, rfl⟩ := List.getLast?_eq_some_iff.mp hends
      rw [if_pos (by simp [hends])]
      have hjoin : (String.ofList (front ++ ['/']) ++ String.ofList name).toList =
          front ++ '/' :: name := by simp
      refine ⟨segments front, ⟨?_, hactive, habove⟩, ?_, ?_⟩
      · rw [hjoin, segments_append_slash, hname]
      · rw [← h.way, segments_append_slash, names_append]
        exact (List.append_nil _).symm
      · rw [hjoin, ← h.head]
        cases front <;> simp
    · rw [if_neg (by simp [hempty, hends])]
      have hjoin : (String.ofList directory ++ "/" ++ String.ofList name).toList =
          directory ++ '/' :: name := by simp
      refine ⟨segments directory, ⟨?_, hactive, habove⟩, h.way, ?_⟩
      · rw [hjoin, segments_append_slash, hname]
      · rw [hjoin, ← h.head]
        cases directory with
        | nil => exact absurd rfl hempty
        | cons c rest => simp

/-- The path beside a target ends in a longer name and leads through the same
directories, from the same start. -/
theorem EndsIn.temporary (h : EndsIn path init last) :
    ∃ init', EndsIn (temporary path) init' (last ++ suffix) ∧ names init' = names init ∧
      ((Path.temporary path).toList.head? = some '/' ↔ path.toList.head? = some '/') := by
  obtain ⟨directory, hleads, htemporary⟩ := h.exists_temporary
  rw [htemporary]
  apply hleads.exists_join
  · simp [h.not_mem, suffix]
  · simp [isIdle, suffix, List.append_eq_singleton_iff]
  · intro heq
    have hlength := congrArg List.length heq
    simp [suffix] at hlength

end Path

namespace FileTree

open BlockLang.Path

variable {t : FileTree} {l k : Location} {path : String} {init : List (List Char)}
  {last : List Char}

/-- Dots among the segments of a path make no difference to where it leads. -/
theorem enterAll_names (t : FileTree) (l : Location) (segments : List (List Char)) :
    t.enterAll l ((segments.filter (· ≠ [])).map String.ofList) =
      t.enterAll l ((names segments).map String.ofList) := by
  unfold enterAll
  induction segments generalizing l with
  | nil => rfl
  | cons segment rest ih =>
      by_cases hempty : segment = []
      · rw [List.filter_cons_of_neg (by simp [hempty]),
          names_cons_of_idle (by rw [hempty]; rfl), ih]
      · rw [List.filter_cons_of_pos (by simp [hempty]), List.map_cons, List.foldlM_cons]
        by_cases hdot : segment = ['.']
        · have henter : t.enter l (String.ofList segment) = .ok l := by
            rw [hdot]
            rfl
          rw [henter, names_cons_of_idle (by rw [hdot]; rfl)]
          exact ih l
        · have hactive : isIdle segment = false := by simp [isIdle, hempty, hdot]
          rw [names, List.filter_cons_of_pos (by simp [hactive]), List.map_cons,
            List.foldlM_cons]
          exact bind_congr fun next => ih next

theorem steps_eq (hsplit : segments path.toList = init ++ [last]) (hlast : last ≠ []) :
    steps path = (init.filter (· ≠ [])).map String.ofList ++ [String.ofList last] := by
  rw [steps, hsplit, List.filter_append, List.map_append,
    List.filter_cons_of_pos (by simpa using hlast)]
  rfl

/-- The directory of a path that ends in a name, and the name. -/
theorem parent_of_endsIn (h : EndsIn path init last) {last' : Last}
    (hparent : t.parent path = .ok (l, last')) :
    t.enterAll (t.origin path) ((names init).map String.ofList) = .ok l ∧
      last' = .name (String.ofList last) false := by
  have hslash : path.toList.getLast? ≠ some '/' := by
    rw [h.getLast?_eq]
    exact fun hlast => h.not_mem (List.mem_of_getLast? hlast)
  have hname : Last.of (String.ofList last) false = .name (String.ofList last) false := by
    have hdot : String.ofList last ≠ "." := by
      intro heq
      have hactive := h.active
      rw [String.ofList_injective heq] at hactive
      cases hactive
    have habove : String.ofList last ≠ ".." :=
      fun heq => h.notAbove (String.ofList_injective heq)
    rw [Last.of, if_neg hdot, if_neg habove]
  unfold parent at hparent
  split_ifs at hparent
  rw [steps_eq h.split h.ne_nil, List.reverse_concat] at hparent
  obtain ⟨directory, henter, hlast⟩ := Except.map_eq_ok_iff.mp hparent
  obtain ⟨rfl, rfl⟩ := Prod.mk.inj hlast
  rw [List.reverse_reverse, enterAll_names] at henter
  refine ⟨henter, ?_⟩
  simp only [hslash, decide_false, hname]

/-- A path whose last step is a name without a slash behind it ends in this
name. -/
theorem exists_endsIn {name : String} (h : t.parent path = .ok (l, .name name false)) :
    ∃ init last, EndsIn path init last ∧ name = String.ofList last := by
  obtain ⟨init, last, hsplit⟩ :=
    (List.eq_nil_or_concat' _).resolve_left (segments_ne_nil path.toList)
  unfold parent at h
  split_ifs at h with _ _ hempty
  split at h
  · cases h
  next final before hsteps =>
    obtain ⟨directory, -, hfinal⟩ := Except.map_eq_ok_iff.mp h
    have hof := (Prod.mk.inj hfinal).2
    unfold Last.of at hof
    split_ifs at hof with hdot habove
    obtain ⟨rfl, hslash⟩ := Last.name.inj hof
    -- An empty last segment is a trailing slash, or a path with no character at all.
    have hlast : last ≠ [] := by
      rintro rfl
      have hpath := joined_segments path.toList
      rw [hsplit] at hpath
      by_cases hinit : init = []
      · rw [hinit] at hpath
        exact hempty (String.isEmpty_iff.mpr (String.toList_eq_nil_iff.mp hpath.symm))
      · obtain ⟨front, hfront⟩ := exists_joined_concat hinit []
        rw [hfront] at hpath
        simp [← hpath] at hslash
    rw [steps_eq hsplit hlast, List.reverse_concat] at hsteps
    obtain ⟨rfl, -⟩ := List.cons.inj hsteps
    refine ⟨init, last, ⟨hsplit, ?_, fun heq => habove (by rw [heq])⟩, rfl⟩
    have hdot' : last ≠ ['.'] := fun heq => hdot (by rw [heq])
    simp [isIdle, hlast, hdot']

/-- The slot of the path that is written beside a target is that of the target
with a longer name. -/
theorem slot?_temporary (htarget : t.slot? path = some l)
    (htemporary : t.slot? (Path.temporary path) = some k) :
    ∃ directory name, l = directory ++ [name] ∧ k = directory ++ [name ++ ".tmp"] := by
  obtain ⟨directory, name, hparent, -, rfl⟩ := slot?_eq_some_iff.mp htarget
  obtain ⟨directory', name', hparent', -, rfl⟩ := slot?_eq_some_iff.mp htemporary
  obtain ⟨init, last, hends, rfl⟩ := exists_endsIn hparent
  obtain ⟨init', hends', hnames, hhead⟩ := hends.temporary
  obtain ⟨henter, -⟩ := parent_of_endsIn hends hparent
  obtain ⟨henter', hlast⟩ := parent_of_endsIn hends' hparent'
  have horigin : t.origin (Path.temporary path) = t.origin path := by simp only [origin, hhead]
  rw [horigin, hnames, henter] at henter'
  obtain rfl := Except.ok.inj henter'
  obtain ⟨rfl, -⟩ := Last.name.inj hlast
  exact ⟨directory, _, rfl, by rw [String.ofList_append]; rfl⟩

/-- Nothing is written beside a target into the slot of the target itself, so
its old contents stay until they are replaced. -/
theorem slot?_temporary_ne (h : t.slot? path = some l) :
    t.slot? (Path.temporary path) ≠ some l := by
  intro htemporary
  obtain ⟨directory, name, rfl, heq⟩ := slot?_temporary h htemporary
  have hname : name = name ++ ".tmp" := List.singleton_inj.mp (List.append_cancel_left heq)
  have hlength := congrArg String.length hname
  simp [String.length_append] at hlength

/-- Files written beside targets with one slot have one slot, however the
targets are spelled. -/
theorem slot?_temporary_congr {path' : String} {k' : Location} (h : t.slot? path = some l)
    (h' : t.slot? path' = some l) (hk : t.slot? (Path.temporary path) = some k)
    (hk' : t.slot? (Path.temporary path') = some k') : k = k' := by
  obtain ⟨directory, name, rfl, rfl⟩ := slot?_temporary h hk
  obtain ⟨directory', name', heq, rfl⟩ := slot?_temporary h' hk'
  obtain ⟨rfl, hname⟩ := List.append_inj' heq rfl
  rw [List.singleton_inj.mp hname]

end FileTree

end BlockLang
