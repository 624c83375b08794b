import BoundTemplate.Proofs.Template.Delimiting
import BoundTemplate.Proofs.Template.Reading

/-!
# Pairing the comments of virtual elements

A machine pairs the comments of a list of siblings: it goes over the list once with the
stack of the virtual elements that are open. Reading a template groups every list of
siblings as this machine does, and it ends exactly if the machine ends some list with a
virtual element open; the error is then about the first such list, in the order in which
the lists end in the template.
-/

namespace BoundTemplate

/-- How siblings are grouped: a virtual element is known by its two comments. -/
inductive Group where
  /-- A node that delimits nothing. -/
  | plain (node : Markup.Node)
  | virtual (startComment : Span) (start : Delimiter.Start) (endComment : Span)
    (children : List Group)

namespace Pairing

/-- A virtual element that is open, with the groups in it. -/
structure Frame where
  comment : Span
  start : Delimiter.Start
  groups : List Group

/-- The open virtual elements, innermost first, and the groups outside of them. -/
structure Machine where
  frames : List Frame
  groups : List Group

/-- The machine that has met no sibling. -/
def Machine.initial : Machine := ⟨[], []⟩

/-- Adds a group to the innermost open virtual element, or outside of all. -/
def Machine.add (m : Machine) (g : Group) : Machine :=
  match m.frames with
  | [] => { m with groups := m.groups ++ [g] }
  | f :: frames => { m with frames := { f with groups := f.groups ++ [g] } :: frames }

/-- What a comment says. -/
def content (source : Source) (comment : Span) : Excerpt :=
  source.excerpt (Delimiter.contentSpan comment)

/-- A comment ends the innermost open virtual element. -/
def Machine.Ended (source : Source) (m : Machine) (comment : Span) : Prop :=
  ∃ f frames, m.frames = f :: frames ∧
    Delimiter.EndPattern (content source comment).text f.start.space

/-- What the machine does at a sibling. -/
inductive Step (source : Source) : Machine → Markup.Node → Machine → Prop
  /-- A comment that ends the innermost open virtual element closes it. -/
  | close {f : Frame} {frames : List Frame} {groups : List Group} {comment : Span}
      (ends : Delimiter.EndPattern (content source comment).text f.start.space) :
      Step source ⟨f :: frames, groups⟩ (.comment comment)
        (Machine.add ⟨frames, groups⟩ (.virtual f.comment f.start comment f.groups))
  /-- Any other comment that starts a virtual element opens it. -/
  | enter {m : Machine} {comment : Span} {start : Delimiter.Start}
      (goes : ¬m.Ended source comment)
      (starts : Delimiter.StartPattern (content source comment) start) :
      Step source m (.comment comment) { m with frames := ⟨comment, start, []⟩ :: m.frames }
  /-- Every other sibling is plain. -/
  | keep {m : Machine} {node : Markup.Node}
      (plain : ∀ comment, node = .comment comment → ¬m.Ended source comment ∧
        ∀ start, ¬Delimiter.StartPattern (content source comment) start) :
      Step source m node (m.add (.plain node))

/-- What the machine does at some siblings, one after the other. -/
inductive Run (source : Source) : Machine → List Markup.Node → Machine → Prop
  | nil (m : Machine) : Run source m [] m
  | cons {m m' m'' : Machine} {node : Markup.Node} {nodes : List Markup.Node}
      (step : Step source m node m') (run : Run source m' nodes m'') :
      Run source m (node :: nodes) m''

/-- The machine does one thing at each sibling. -/
theorem Step.unique {source : Source} {m m' m'' : Machine} {node : Markup.Node}
    (h : Step source m node m') (h' : Step source m node m'') : m' = m'' := by
  cases h with
  | close ends =>
    cases h' with
    | close => rfl
    | enter goes => exact absurd ⟨_, _, rfl, ends⟩ goes
    | keep plain => exact absurd ⟨_, _, rfl, ends⟩ (plain _ rfl).1
  | enter goes starts =>
    cases h' with
    | close ends => exact absurd ⟨_, _, rfl, ends⟩ goes
    | enter _ starts' =>
      have heq := starts.ofContent?_eq.symm.trans starts'.ofContent?_eq
      cases heq
      rfl
    | keep plain => exact absurd starts ((plain _ rfl).2 _)
  | keep plain =>
    cases h' with
    | close ends => exact absurd ⟨_, _, rfl, ends⟩ (plain _ rfl).1
    | enter _ starts => exact absurd starts ((plain _ rfl).2 _)
    | keep => rfl

/-- The machine ends a list of siblings in one way. -/
theorem Run.unique {source : Source} {m m' m'' : Machine} {nodes : List Markup.Node}
    (h : Run source m nodes m') (h' : Run source m nodes m'') : m' = m'' := by
  induction h with
  | nil =>
    cases h'
    rfl
  | cons step _ ih =>
    cases h' with
    | cons step' run' =>
      cases step.unique step'
      exact ih run'

/-- The machine does something at each sibling. -/
theorem exists_step (source : Source) (m : Machine) (node : Markup.Node) :
    ∃ m', Step source m node m' := by
  cases node with
  | text span => exact ⟨_, .keep fun comment h => by cases h⟩
  | element range name attributes inner children => exact ⟨_, .keep fun comment h => by cases h⟩
  | comment comment =>
    by_cases hended : m.Ended source comment
    · obtain ⟨frames, groups⟩ := m
      obtain ⟨f, frames', rfl, ends⟩ := hended
      exact ⟨_, .close ends⟩
    · by_cases hstart : ∃ start, Delimiter.StartPattern (content source comment) start
      · obtain ⟨start, starts⟩ := hstart
        exact ⟨_, .enter hended starts⟩
      · refine ⟨_, .keep fun comment' h => ?_⟩
        cases h
        exact ⟨hended, fun start hs => hstart ⟨start, hs⟩⟩

/-- The machine ends every list of siblings. -/
theorem exists_run (source : Source) (m : Machine) (nodes : List Markup.Node) :
    ∃ m', Run source m nodes m' := by
  induction nodes generalizing m with
  | nil => exact ⟨m, .nil m⟩
  | cons node nodes ih =>
    obtain ⟨m', step⟩ := exists_step source m node
    obtain ⟨m'', run⟩ := ih m'
    exact ⟨m'', .cons step run⟩

/-! ### Groups and nodes -/

mutual

/-- The node that a group is read as. The children of an element are grouped by the machine in their
turn, with nothing left open. -/
inductive Shows (source : Source) : Group → Node → Prop
  | text (span : Span) : Shows source (.plain (.text span)) (.text (source.piece span))
  | comment (span : Span) :
      Shows source (.plain (.comment span))
        (.comment ⟨(content source span).text, source.range span⟩)
  | element {range name inner : Span} {attributes : List Markup.Attribute}
      {children : List Markup.Node} {groups : List Group} {e : Element} {nodes : List Node}
      (range_eq : e.range = source.range range) (name_eq : e.name = source.piece name)
      (inner_eq : e.inner = source.range inner)
      (run : Run source .initial children ⟨[], groups⟩) (shown : ShowsAll source groups nodes) :
      Shows source (.plain (.element range name attributes inner children)) (.element e nodes)
  | virtual {comment endComment : Span} {start : Delimiter.Start} {groups : List Group}
      {v : VirtualElement} {nodes : List Node}
      (range_eq : v.range = source.range ⟨comment.start, endComment.stop⟩)
      (startComment_eq : v.startComment = source.range comment)
      (endComment_eq : v.endComment = source.range endComment)
      (space_eq : v.space = source.piece start.spaceSpan)
      (expression_eq : v.expression = source.piece start.expression)
      (inner_eq : v.inner = source.range ⟨comment.stop, endComment.start⟩)
      (shown : ShowsAll source groups nodes) :
      Shows source (.virtual comment start endComment groups) (.virtual v nodes)

/-- The nodes that some groups are read as. -/
inductive ShowsAll (source : Source) : List Group → List Node → Prop
  | nil : ShowsAll source [] []
  | cons {g : Group} {node : Node} {groups : List Group} {nodes : List Node}
      (first : Shows source g node) (others : ShowsAll source groups nodes) :
      ShowsAll source (g :: groups) (node :: nodes)

end

/-- A node is read behind others as its group is added behind theirs. -/
theorem ShowsAll.concat {source : Source} {groups : List Group} {nodes : List Node} {g : Group}
    {node : Node} (h : ShowsAll source groups nodes) (last : Shows source g node) :
    ShowsAll source (groups ++ [g]) (nodes ++ [node]) := by
  induction nodes generalizing groups with
  | nil =>
    cases h
    exact .cons last .nil
  | cons _ _ ih =>
    cases h with
    | cons first others => exact .cons first (ih others)

/-- The open virtual elements of the machine are those of reading. -/
inductive FramesAgree (source : Source) : List Frame → List OpenVirtual → Prop
  | nil : FramesAgree source [] []
  | cons {f : Frame} {r : OpenVirtual} {frames : List Frame} {regions : List OpenVirtual}
      (comment_eq : r.comment = f.comment) (start_eq : r.start = f.start)
      (shown : ShowsAll source f.groups r.children.reverse)
      (outer : FramesAgree source frames regions) :
      FramesAgree source (f :: frames) (r :: regions)

/-- What the machine has grouped is what has been read. -/
structure Agrees (source : Source) (m : Machine) (s : Siblings) : Prop where
  frames : FramesAgree source m.frames s.regions
  shown : ShowsAll source m.groups s.nodes.reverse

namespace Agrees

variable {source : Source} {m : Machine} {s : Siblings}

theorem initial (source : Source) : Agrees source .initial .none := ⟨.nil, .nil⟩

/-- A group is added where its node is. -/
theorem push (h : Agrees source m s) {g : Group} {node : Node} (hg : Shows source g node) :
    Agrees source (m.add g) (s.push node) := by
  obtain ⟨frames, groups⟩ := m
  obtain ⟨regions, nodes⟩ := s
  obtain ⟨hframes, hshown⟩ := h
  cases hframes with
  | nil =>
    refine ⟨.nil, ?_⟩
    simp only [Machine.add, Siblings.push, List.reverse_cons]
    exact hshown.concat hg
  | cons comment_eq start_eq shown outer =>
    refine ⟨.cons comment_eq start_eq ?_ outer, hshown⟩
    rw [List.reverse_cons]
    exact shown.concat hg

/-- A comment ends a virtual element of the machine if it does of reading. -/
theorem ended_iff (options : ReadOptions) (parser : Script.Parser) (h : Agrees source m s)
    (comment : Span) :
    m.Ended source comment ↔ (Setting.mk source options parser).Ends s.regions comment := by
  obtain ⟨frames, groups⟩ := m
  obtain ⟨regions, nodes⟩ := s
  obtain ⟨hframes, -⟩ := h
  constructor
  · rintro ⟨f, frames, rfl, hends⟩
    cases hframes with
    | @cons _ r _ regions _ start_eq =>
      rw [← start_eq] at hends
      exact ⟨r, regions, rfl, Delimiter.endOf?_eq_some_iff.2 hends⟩
  · rintro ⟨r, regions, rfl, hends⟩
    cases hframes with
    | @cons f _ frames _ _ start_eq =>
      rw [start_eq] at hends
      exact ⟨f, frames, rfl, Delimiter.endOf?_eq_some_iff.1 hends⟩

/-- The innermost open virtual element is left as its frame is closed. -/
theorem leave {options : ReadOptions} {parser : Script.Parser} {f : Frame} {frames : List Frame}
    {groups : List Group} {region : OpenVirtual} {regions : List OpenVirtual}
    (hs : s.regions = region :: regions) (h : Agrees source ⟨f :: frames, groups⟩ s)
    (comment : Span) :
    Agrees source
      (Machine.add ⟨frames, groups⟩ (.virtual f.comment f.start comment f.groups))
      (({ s with regions := regions } : Siblings).push
        ((Setting.mk source options parser).leave region comment)) := by
  obtain ⟨hframes, hshown⟩ := h
  rw [hs] at hframes
  cases hframes with
  | cons comment_eq start_eq shown outer =>
    have hagrees : Agrees source ⟨frames, groups⟩ { s with regions := regions } := ⟨outer, hshown⟩
    refine hagrees.push (.virtual ?_ ?_ rfl ?_ ?_ ?_ shown)
    · rw [← comment_eq]
    · rw [← comment_eq]
    · rw [← start_eq]
    · rw [← start_eq]
    · rw [← comment_eq]

/-- A virtual element is entered as its frame is opened. -/
theorem enter (h : Agrees source m s) {region : OpenVirtual} (hchildren : region.children = []) :
    Agrees source { m with frames := ⟨region.comment, region.start, []⟩ :: m.frames }
      (s.enter region) := by
  obtain ⟨hframes, hshown⟩ := h
  refine ⟨.cons rfl rfl ?_ hframes, hshown⟩
  rw [hchildren]
  exact .nil

end Agrees

/-! ### Lists that end -/

mutual

/-- The lists of siblings inside of a node, in the order in which they end. -/
def listsOfNode : Markup.Node → List (List Markup.Node)
  | .text _ | .comment _ => []
  | .element _ _ _ _ children => listsInside children ++ [children]

/-- The lists of siblings inside of some nodes, in the order in which they end. -/
def listsInside : List Markup.Node → List (List Markup.Node)
  | [] => []
  | node :: nodes => listsOfNode node ++ listsInside nodes

end

/-- A list of siblings and those inside of it, in the order in which they end. -/
def lists (nodes : List Markup.Node) : List (List Markup.Node) := listsInside nodes ++ [nodes]

/-- The machine ends a list with nothing open. -/
def Closes (source : Source) (nodes : List Markup.Node) : Prop :=
  ∃ groups, Run source .initial nodes ⟨[], groups⟩

/-- The machine ends a list with an innermost virtual element open. -/
def LeavesOpen (source : Source) (nodes : List Markup.Node) (f : Frame) : Prop :=
  ∃ frames groups, Run source .initial nodes ⟨f :: frames, groups⟩

/-- A list that the machine ends with nothing open does not leave one open. -/
theorem Closes.not_leavesOpen {source : Source} {nodes : List Markup.Node} {f : Frame}
    (h : Closes source nodes) : ¬LeavesOpen source nodes f := by
  rintro ⟨frames, groups, run⟩
  obtain ⟨groups', run'⟩ := h
  cases run.unique run'

/-- The first of some lists that leaves a virtual element open. -/
def FirstOpen (source : Source) (lists : List (List Markup.Node)) (f : Frame) : Prop :=
  ∃ before list after, lists = before ++ list :: after ∧ (∀ l ∈ before, Closes source l) ∧
    LeavesOpen source list f

namespace FirstOpen

variable {source : Source} {a b : List (List Markup.Node)} {f : Frame}

/-- Lists that end later do not count. -/
theorem append_right (h : FirstOpen source a f) (b : List (List Markup.Node)) :
    FirstOpen source (a ++ b) f := by
  obtain ⟨before, list, after, rfl, hbefore, hopen⟩ := h
  exact ⟨before, list, after ++ b, by rw [List.append_assoc, List.cons_append], hbefore, hopen⟩

/-- Lists that end earlier with nothing open do not count. -/
theorem append_left (h : FirstOpen source b f) (ha : ∀ l ∈ a, Closes source l) :
    FirstOpen source (a ++ b) f := by
  obtain ⟨before, list, after, rfl, hbefore, hopen⟩ := h
  refine ⟨a ++ before, list, after, by rw [List.append_assoc], fun l hl => ?_, hopen⟩
  rcases List.mem_append.1 hl with hl | hl
  · exact ha l hl
  · exact hbefore l hl

end FirstOpen

/-! ### Reading -/

/-- The error about a virtual element that is left open. -/
def Frame.error (source : Source) (f : Frame) : ParseError :=
  ⟨source.range f.comment, .endCommentExpected⟩

/-- Reading goes as the machine does: what is read of some siblings agrees with it when all lists
inside of them end with nothing open, and else reading ends with the first that does not. -/
def Follows (source : Source) (lists : List (List Markup.Node)) {α : Type} (Agreed : α → Prop)
    (result : Except ParseError α) : Prop :=
  match result with
  | .ok a => (∀ l ∈ lists, Closes source l) ∧ Agreed a
  | .error e => ∃ f, FirstOpen source lists f ∧ e = f.error source

variable {source : Source} (options : ReadOptions) (parser : Script.Parser)

/-- A comment is read as the machine groups it. -/
theorem exists_step_of_run_addNode_comment {m : Machine} {s : Siblings} (h : Agrees source m s)
    (comment : Span) (p : Progress) :
    ∃ s' q m',
      ((Setting.mk source options parser).addNode s (.comment comment)).run.run p = (.ok s', q) ∧
      Step source m (.comment comment) m' ∧ Agrees source m' s' := by
  by_cases hends : (Setting.mk source options parser).Ends s.regions comment
  · obtain ⟨f, frames, hm, hf⟩ := h.ended_iff options parser comment |>.2 hends
    obtain ⟨region, regions, hr, he⟩ := hends
    obtain ⟨_, groups⟩ := m
    cases hm
    exact ⟨_, p, _, Setting.run_addNode_leave _ hr he p, .close hf, h.leave hr comment⟩
  · have hgoes : ¬m.Ended source comment := fun hm =>
      hends (h.ended_iff options parser comment |>.1 hm)
    rcases hstart : Delimiter.Start.ofContent? (content source comment) with _ | start
    · refine ⟨_, p, _, Setting.run_addNode_comment _ hends hstart p, .keep fun comment' hc => ?_,
        h.push (.comment comment)⟩
      cases hc
      refine ⟨hgoes, fun start hs => ?_⟩
      rw [hs.ofContent?_eq] at hstart
      cases hstart
    · have hpattern := Delimiter.startPattern_of_ofContent? hstart
      have hempty :
          ((Setting.mk source options parser).regionOf p.nextId comment start).children = [] := rfl
      exact ⟨_, _, _, Setting.run_addNode_enter _ hends hstart p, .enter hgoes hpattern,
        h.enter hempty⟩

mutual

/-- A node is read as the machine groups it, unless a list inside of it leaves something open. -/
theorem follows_addNode {m : Machine} {s : Siblings} (h : Agrees source m s)
    (node : Markup.Node) (p : Progress) :
    Follows source (listsOfNode node) (fun s' => ∃ m', Step source m node m' ∧ Agrees source m' s')
      (((Setting.mk source options parser).addNode s node).run.run p).1 := by
  cases node with
  | text span =>
    rw [Setting.run_addNode_text]
    have hkeep : Step source m (.text span) (m.add (.plain (.text span))) :=
      .keep fun comment hc => by cases hc
    exact ⟨by simp [listsOfNode], _, hkeep, h.push (.text span)⟩
  | comment comment =>
    obtain ⟨s', q, m', hrun, hstep, hagrees⟩ :=
      exists_step_of_run_addNode_comment options parser h comment p
    rw [hrun]
    exact ⟨by simp [listsOfNode], m', hstep, hagrees⟩
  | element range name attributes inner children =>
    rw [Setting.run_addNode_element]
    have hchildren := follows_readAll children (p.numbered.found
      ((Setting.mk source options parser).attributeErrors p.nextId attributes))
    revert hchildren
    rcases ((Setting.mk source options parser).readAll children).run.run _ with ⟨e | nodes, q⟩
    · exact fun hopen => hopen
    · rintro ⟨hclose, groups, hrun, hshown⟩
      have hkeep : Step source m (.element range name attributes inner children)
          (m.add (.plain (.element range name attributes inner children))) :=
        .keep fun comment hc => by cases hc
      exact ⟨hclose, _, hkeep, h.push (.element rfl rfl rfl hrun hshown)⟩

/-- Siblings are read as the machine groups them, unless a list inside of them leaves something
open. -/
theorem follows_addNodes {m : Machine} {s : Siblings} (h : Agrees source m s)
    (nodes : List Markup.Node) (p : Progress) :
    Follows source (listsInside nodes)
      (fun s' => ∃ m', Run source m nodes m' ∧ Agrees source m' s')
      (((Setting.mk source options parser).addNodes s nodes).run.run p).1 := by
  cases nodes with
  | nil => exact ⟨by simp [listsInside], m, .nil m, h⟩
  | cons node nodes =>
    have hnode := follows_addNode h node p
    rw [Setting.addNodes, Reading.run_bind]
    revert hnode
    rcases ((Setting.mk source options parser).addNode s node).run.run p with ⟨e | s', q⟩
    · rintro ⟨f, hopen, he⟩
      exact ⟨f, hopen.append_right _, he⟩
    · rintro ⟨hclose, m', hstep, hagrees⟩
      have hnodes := follows_addNodes hagrees nodes q
      revert hnodes
      dsimp only
      rcases ((Setting.mk source options parser).addNodes s' nodes).run.run q with ⟨e | s'', r⟩
      · rintro ⟨f, hopen, he⟩
        exact ⟨f, hopen.append_left hclose, he⟩
      · rintro ⟨hclose', m'', hrun, hagrees'⟩
        refine ⟨fun l hl => ?_, m'', .cons hstep hrun, hagrees'⟩
        rcases List.mem_append.1 hl with hl | hl
        · exact hclose l hl
        · exact hclose' l hl

/-- All nodes are read as the machine groups them, unless a list of them leaves something open. -/
theorem follows_readAll (nodes : List Markup.Node) (p : Progress) :
    Follows source (lists nodes)
      (fun read => ∃ groups, Run source .initial nodes ⟨[], groups⟩ ∧ ShowsAll source groups read)
      (((Setting.mk source options parser).readAll nodes).run.run p).1 := by
  have hnodes := follows_addNodes (.initial source) nodes p
  rw [Setting.readAll_eq, Reading.run_bind]
  revert hnodes
  rcases ((Setting.mk source options parser).addNodes .none nodes).run.run p with ⟨e | s, q⟩
  · rintro ⟨f, hopen, he⟩
    exact ⟨f, hopen.append_right _, he⟩
  · rintro ⟨hclose, ⟨frames, groups⟩, hrun, hframes, hshown⟩
    dsimp only
    rcases hregions : s.regions with _ | ⟨region, regions⟩
    · rw [Setting.run_finish_nil _ hregions]
      rw [hregions] at hframes
      cases hframes
      refine ⟨fun l hl => ?_, groups, hrun, hshown⟩
      rcases List.mem_append.1 hl with hl | hl
      · exact hclose l hl
      · cases List.mem_singleton.1 hl
        exact ⟨groups, hrun⟩
    · rw [Setting.run_finish_cons _ hregions]
      rw [hregions] at hframes
      cases hframes with
      | @cons f _ frames _ comment_eq =>
        have hopen : FirstOpen source [nodes] f :=
          ⟨[], nodes, [], rfl, by simp, frames, groups, hrun⟩
        refine ⟨f, hopen.append_left hclose, ?_⟩
        rw [comment_eq]
        rfl

end

/-- Siblings are grouped as the machine does it, or a list in them leaves something open. -/
theorem grouped_readAll (nodes : List Markup.Node) (p : Progress) :
    match (((Setting.mk source options parser).readAll nodes).run.run p).1 with
    | .ok read => ∃ groups,
        Run source .initial nodes ⟨[], groups⟩ ∧ ShowsAll source groups read
    | .error e => ∃ f, FirstOpen source (lists nodes) f ∧ e = f.error source := by
  have hfollows := @follows_readAll source options parser nodes p
  revert hfollows
  rcases (((Setting.mk source options parser).readAll nodes).run.run p).1 with e | read
  · exact fun hopen => hopen
  · exact fun hread => hread.2

/-- The first of some lists that leaves a virtual element open is one of them. -/
theorem FirstOpen.exists_leavesOpen {lists : List (List Markup.Node)} {f : Frame}
    (h : FirstOpen source lists f) : ∃ list ∈ lists, ∃ f, LeavesOpen source list f := by
  obtain ⟨before, list, after, rfl, -, hopen⟩ := h
  exact ⟨list, by simp, f, hopen⟩

end Pairing

open Pairing in
/-- A template is paired as the machine does it. -/
structure Template.Paired (t : Text) (options : ReadOptions) (parser : Script.Parser)
    (document : Markup.Document) (template : Template) : Prop where
  /-- Every list of siblings is grouped as the machine does it, or a list in it is left open. -/
  grouped : ∀ list ∈ lists document.nodes, ∀ p,
    match (((Setting.mk (.ofText t) options parser).readAll list).run.run p).1 with
    | .ok nodes => ∃ groups,
        Run (.ofText t) .initial list ⟨[], groups⟩ ∧ ShowsAll (.ofText t) groups nodes
    | .error e => ∃ f, FirstOpen (.ofText t) (lists list) f ∧ e = f.error (.ofText t)
  /-- The nodes of the tree are the groups of the template. -/
  shown : ∀ tree, template.tree = some tree → ∃ groups,
    Run (.ofText t) .initial document.nodes ⟨[], groups⟩ ∧ ShowsAll (.ofText t) groups tree.nodes
  /-- There is no tree exactly if the machine leaves a virtual element of some list open. -/
  tree_eq_none_iff : template.tree = none ↔
    ∃ list ∈ lists document.nodes, ∃ f, LeavesOpen (.ofText t) list f
  /-- The last error, and no other, then says that a comment is missing; it is about the innermost
  virtual element that the first such list leaves open. -/
  errors_eq : template.tree = none → ∃ f errors,
    FirstOpen (.ofText t) (lists document.nodes) f ∧
      template.errors = errors ++ [f.error (.ofText t)] ∧
      ∀ e ∈ errors, e.problem ≠ .endCommentExpected

open Pairing in
/-- A template in which a list leaves a virtual element open is paired. -/
theorem Template.paired_of_open {t : Text} {options : ReadOptions} {parser : Script.Parser}
    {document : Markup.Document} {errors : List ParseError} {f : Frame}
    (hopen : FirstOpen (.ofText t) (lists document.nodes) f)
    (herrors : ∀ e ∈ errors, e.problem ≠ .endCommentExpected) :
    Template.Paired t options parser document ⟨none, errors ++ [f.error (.ofText t)]⟩ where
  grouped list _ p := grouped_readAll options parser list p
  shown _ ht := nomatch ht
  tree_eq_none_iff := ⟨fun _ => hopen.exists_leavesOpen, fun _ => rfl⟩
  errors_eq _ := ⟨f, errors, hopen, rfl, herrors⟩

open Pairing in
/-- A template in which every list ends with nothing open is paired. -/
theorem Template.paired_of_closes {t : Text} {options : ReadOptions} {parser : Script.Parser}
    {document : Markup.Document} {tree : SyntaxTree} {errors : List ParseError}
    {groups : List Group} (hcloses : ∀ list ∈ lists document.nodes, Closes (.ofText t) list)
    (hrun : Run (.ofText t) .initial document.nodes ⟨[], groups⟩)
    (hshown : ShowsAll (.ofText t) groups tree.nodes) :
    Template.Paired t options parser document ⟨some tree, errors⟩ where
  grouped list _ p := grouped_readAll options parser list p
  shown := by
    rintro tree ⟨⟩
    exact ⟨groups, hrun, hshown⟩
  tree_eq_none_iff := by
    refine ⟨fun h => (nomatch h), ?_⟩
    rintro ⟨list, hl, f, hopen⟩
    exact absurd hopen (hcloses list hl).not_leavesOpen
  errors_eq h := nomatch h

open Pairing in
/-- Every template that is read is paired as the machine does it, which ends every list in exactly
one way; and every template without byte order marks is read. That holds whatever the tokenizer and
the parser are. -/
theorem Template.paired_of_read (t : Text) (options : ReadOptions) (tokenizer : Markup.Tokenizer)
    (parser : Script.Parser) :
    (∀ list, ∃ m, Run (.ofText t) .initial list m ∧
      ∀ m', Run (.ofText t) .initial list m' → m' = m) ∧
    (Markup.byteOrderMark ∉ t →
      ∃ template, Template.read t options tokenizer parser = .ok template) ∧
    ∀ template, Template.read t options tokenizer parser = .ok template →
      ∃ document, Markup.Document.ofText tokenizer t = .ok document ∧
        Template.Paired t options parser document template := by
  refine ⟨fun list => ?_, fun mark => exists_read tokenizer parser mark options,
    fun template h => ?_⟩
  · obtain ⟨m, hrun⟩ := exists_run (.ofText t) .initial list
    exact ⟨m, hrun, fun m' hrun' => hrun'.unique hrun⟩
  obtain ⟨document, more, result, q, hd, hq, hm, htemplate⟩ := exists_of_read h
  have hroot := @follows_readAll (.ofText t) options parser document.nodes
    ⟨0, (document.errors (.ofText t)).reverse⟩
  rw [hq] at hroot
  refine ⟨document, hd, ?_⟩
  cases result with
  | error e =>
    obtain ⟨f, hopen, rfl⟩ := hroot
    cases htemplate
    refine paired_of_open hopen fun e he heq => ?_
    rcases List.mem_append.1 he with he | he
    · obtain ⟨⟨span, problem⟩, -, rfl⟩ := List.mem_map.1 he
      cases heq
    · have he := hm e he
      rw [heq] at he
      cases he
  | ok nodes =>
    obtain ⟨hcloses, groups, hrun, hshown⟩ := hroot
    cases htemplate
    exact paired_of_closes hcloses hrun hshown

open Pairing in
/-- An end comment behind the element in which its virtual element starts does not end it, and the
list inside of the element ends first. -/
theorem Template.paired_of_read_paragraph :
    ∃ (t : Text) (template : Template) (document : Markup.Document) (f : Frame),
      t = "<!--ok--><p><!--ko x--></p><!--/ko-->".toList ∧
      Markup.byteOrderMark ∉ t ∧ Template.read t {} = .ok template ∧
      template.tree = none ∧ FirstOpen (.ofText t) (lists document.nodes) f ∧
      template.errors.getLast? = some (f.error (.ofText t)) ∧
      (f.error (.ofText t)).range.span = ⟨12, 23⟩ := by
  have hread : (match Template.read "<!--ok--><p><!--ko x--></p><!--/ko-->".toList {} with
      | .ok ⟨none, errors⟩ => errors.getLast?.map (·.range.span) == some ⟨12, 23⟩
      | _ => false) = true := by decide +kernel
  split at hread
  · next errors h =>
    obtain ⟨document, hd, hpaired⟩ := (Template.paired_of_read _ {} .standard .standard).2.2 _ h
    obtain ⟨f, others, hopen, herrors, -⟩ := hpaired.errors_eq rfl
    have hlast := congrArg List.getLast? herrors
    rw [List.getLast?_concat] at hlast
    dsimp only at hlast
    refine ⟨_, _, document, f, rfl, by decide, h, rfl, hopen, hlast, ?_⟩
    rw [hlast] at hread
    exact Option.some.inj (beq_iff_eq.1 hread)
  · cases hread

end BoundTemplate
