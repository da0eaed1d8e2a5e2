import JavaThrows.Proofs.Cst.Place
import JavaThrows.Proofs.Cst.TokenEnds
import JavaThrows.Proofs.Text.Lines

set_option autoImplicit false

/-!
# Where nodes start and end

Reading puts tokens together and never ends a node with a comment, so the ends of the nodes are ends
of tokens: a node starts with a character that is no white space, and ends with one unless it is a
comment. Main statement: `javaTree_solid`.
-/

namespace JavaThrows.Cst

open Text

/-! ## Solid nodes -/

variable {text : List Char}

/-- The nodes start with characters that are no white space. All but comments end with one, and so
    does the last node. -/
structure SolidNodes (text : List Char) (ns : List Node) : Prop where
  starts : ∀ n ∈ ns, SolidAt text n.span.start
  ends : ∀ n ∈ ns, ¬ n.isComment → SolidBefore text n.span.stop
  last : ∀ n ∈ ns.getLast?, SolidBefore text n.span.stop

/-- The ends of the token are no white space, nor are the starts of the comments before it. -/
structure SolidToken (text : List Char) (t : Token) : Prop where
  starts : SolidAt text t.span.start
  ends : SolidBefore text t.span.stop
  comments : ∀ c ∈ t.comments, SolidAt text c.span.start

namespace SolidNodes

theorem nil : SolidNodes text [] :=
  ⟨by simp, by simp, by simp⟩

theorem append {xs ys : List Node} (hxs : SolidNodes text xs) (hys : SolidNodes text ys) :
    SolidNodes text (xs ++ ys) := by
  refine ⟨List.forall_mem_append.2 ⟨hxs.starts, hys.starts⟩,
    List.forall_mem_append.2 ⟨hxs.ends, hys.ends⟩, fun n hn => ?_⟩
  rw [List.getLast?_append, Option.mem_def, Option.or_eq_some_iff] at hn
  rcases hn with hn | ⟨-, hn⟩
  · exact hys.last n hn
  · exact hxs.last n hn

/-- Comments stand in front of a node that ends with no white space. -/
theorem concat {comments : List Node} {n : Node}
    (hcomments : ∀ c ∈ comments, SolidAt text c.span.start ∧ c.isComment)
    (hstart : SolidAt text n.span.start) (hstop : SolidBefore text n.span.stop) :
    SolidNodes text (comments ++ [n]) := by
  refine ⟨fun m hm => ?_, fun m hm hnot => ?_, fun m hm => ?_⟩
  · rcases List.mem_append.1 hm with hm | hm
    · exact (hcomments m hm).1
    · rwa [List.mem_singleton.1 hm]
  · rcases List.mem_append.1 hm with hm | hm
    · exact absurd (hcomments m hm).2 hnot
    · rwa [List.mem_singleton.1 hm]
  · rw [List.getLast?_concat, Option.mem_some_iff] at hm
    rwa [← hm]

/-- A node of any kind from the first node to the last one has their ends. -/
theorem enclose {ns : List Node} (kind : String) (h : SolidNodes text ns) :
    SolidNodes text (enclose kind ns) := by
  rcases enclose_cases kind ns with
    ⟨-, heq⟩ | ⟨comments, first, others, hparts, hcomments, -, heq⟩
  · rwa [heq]
  · rw [heq]
    rw [hparts] at h
    refine concat (fun c hc => ?_) ?_ ?_
    · exact ⟨h.starts c (List.mem_append_left _ hc), hcomments c hc⟩
    · exact h.starts first (List.mem_append_right _ List.mem_cons_self)
    · have hlast : (comments ++ first :: others).getLast? =
          some ((first :: others).getLastD first) := by
        rw [List.getLast?_append, List.getLast?_cons, List.getLastD_cons, Option.some_or,
          List.getLastD_eq_getLast?]
      exact h.last ((first :: others).getLastD first) hlast

theorem fill {ns : List Node} (name : String) (h : SolidNodes text ns) :
    SolidNodes text (fill name ns) := by
  -- The nodes keep their kinds and spans.
  have hsame : ∀ n : Node,
      (if n.isComment then n else { n with field := some name }).span = n.span ∧
      (if n.isComment then n else { n with field := some name }).isComment = n.isComment := by
    intro n
    split <;> exact ⟨rfl, rfl⟩
  unfold Cst.fill
  refine ⟨List.forall_mem_map.2 fun n hn => ?_, List.forall_mem_map.2 fun n hn => ?_,
    fun m hm => ?_⟩
  · rw [(hsame n).1]
    exact h.starts n hn
  · rw [(hsame n).1, (hsame n).2]
    exact h.ends n hn
  · rw [List.getLast?_map, Option.mem_def, Option.map_eq_some_iff] at hm
    obtain ⟨n, hn, rfl⟩ := hm
    rw [(hsame n).1]
    exact h.last n hn

/-- The larger node starts where the one that it extends does. -/
theorem extend {before more : List Node} (hbefore : SolidNodes text before)
    (hmore : SolidNodes text more) : SolidNodes text (extend before more) := by
  unfold Cst.extend
  split
  · next inner front outer comments hinner houter =>
    rw [List.reverse_eq_cons_iff] at hinner houter
    subst hinner houter
    have hfront : ∀ n ∈ front.reverse, n ∈ front.reverse ++ [inner] :=
      fun n hn => List.mem_append_left _ hn
    have hstart := hbefore.starts inner (List.mem_append_right _ List.mem_cons_self)
    have hstop := hmore.last outer (by rw [List.getLast?_concat]; rfl)
    refine ⟨List.forall_mem_append.2 ⟨fun n hn => hbefore.starts n (hfront n hn), ?_⟩,
      List.forall_mem_append.2 ⟨fun n hn => hbefore.ends n (hfront n hn), ?_⟩, fun n hn => ?_⟩
    · exact List.forall_mem_singleton.2 hstart
    · exact List.forall_mem_singleton.2 fun _ => hstop
    · rw [List.getLast?_concat, Option.mem_some_iff] at hn
      subst hn
      exact hstop
  · exact hbefore.append hmore

end SolidNodes

/-- Solid tokens are read to solid nodes, wherever reading stands. -/
theorem kept_solidNodes :
    KeptByReading (fun (_ : Unit) ts => ∀ t ∈ ts, SolidToken text t)
      fun _ _ ns => SolidNodes text ns where
  nil _ := .nil
  append := .append
  leaf := by
    intro _ token ts kind hts
    rw [List.forall_mem_cons] at hts
    obtain ⟨htoken, hts⟩ := hts
    refine ⟨(), SolidNodes.concat (fun c hc => ?_) htoken.starts htoken.ends, hts⟩
    obtain ⟨comment, hmem, rfl⟩ := List.mem_map.1 hc
    exact ⟨htoken.comments comment hmem, isComment_node comment⟩
  enclose := .enclose
  fill := .fill
  extend := .extend

/-! ## Tokens of a source -/

theorem Solid.solidAt {front token rest : List Char} (h : Solid token) :
    SolidAt (front ++ token ++ rest) (byteLength front) := by
  obtain ⟨c, others, rfl, hc⟩ := h.head
  exact ⟨front, c, others ++ rest, by simp, rfl, hc⟩

theorem Solid.solidBefore {front token rest : List Char} (h : Solid token) :
    SolidBefore (front ++ token ++ rest) (byteLength (front ++ token)) := by
  obtain ⟨others, c, rfl, hc⟩ := h.last
  refine ⟨front ++ others, c, rest, by simp, ?_, hc⟩
  simp only [byteLength_append, byteLength]
  omega

/-- The tokens of a source are solid, and so are the starts of the comments behind them. -/
theorem Scanned.solid {source front : List Char} {last : Nat} {comments : List Comment}
    {holes : List Hole} {s : Scan} (h : Scanned source front last comments holes s)
    (hcomments : ∀ c ∈ comments, SolidAt source c.span.start) :
    (∀ t ∈ s.tokens, SolidToken source t) ∧ ∀ c ∈ s.trailing, SolidAt source c.span.start := by
  induction h with
  | done => exact ⟨by simp, hcomments⟩
  | blank _ _ _ ih => exact ih hcomments
  | @comment front cs c _ _ _ _ _ _ hsource hpiece _ ih =>
    -- A comment waits for the token behind it.
    have hstart : SolidAt source (byteLength front) :=
      ⟨front, c, cs, hsource, rfl, hasEnds_of_piece hpiece⟩
    exact ih (List.forall_mem_append.2 ⟨hcomments, List.forall_mem_singleton.2 hstart⟩)
  | @token front cs c _ length _ _ _ _ _ hsource hpiece _ ih =>
    -- A token takes the comments that have waited.
    have hsolid : Solid ((c :: cs).take length) := hasEnds_of_piece hpiece
    have hcut : source = front ++ (c :: cs).take length ++ (c :: cs).drop length := by
      rw [hsource, List.append_assoc, List.take_append_drop]
    obtain ⟨htokens, htrailing⟩ := ih (by simp)
    refine ⟨List.forall_mem_cons.2 ⟨⟨?_, ?_, hcomments⟩, htokens⟩, htrailing⟩
    · rw [hcut]
      exact hsolid.solidAt
    · rw [hcut]
      exact hsolid.solidBefore

theorem scan_solid {source : List Char} {s : Scan} (h : scan source = .ok s) :
    (∀ t ∈ s.tokens, SolidToken source t) ∧ ∀ c ∈ s.trailing, SolidAt source c.span.start := by
  obtain ⟨front, holes, hscanned⟩ := scan_scanned h
  exact hscanned.solid (by simp)

/-! ## The tree of a source -/

/-- **The nodes at the top of the tree of a source start with no white space**, and all but the
    comments end with none. -/
theorem javaTree_solid {source : List Char} {root : Node} (h : javaTree source = some root) :
    ∀ n ∈ root.children,
      SolidAt source n.span.start ∧ (¬ n.isComment → SolidBefore source n.span.stop) := by
  obtain ⟨s, nodes, hscan, hchildren, hread⟩ := exists_read_of_javaTree h
  obtain ⟨htokens, htrailing⟩ := scan_solid hscan
  obtain ⟨-, hsolid, -⟩ := Rule.readWith_yieldsFrom kept_solidNodes
    (javaGrammar.read_yieldsFrom kept_solidNodes (referenceBound s.tokens)) (.many Java.topLevel)
    (s := ()) htokens hread
  rw [hchildren]
  intro n hn
  rcases List.mem_append.1 hn with hn | hn
  · exact ⟨hsolid.starts n hn, hsolid.ends n hn⟩
  · obtain ⟨c, hc, rfl⟩ := List.mem_map.1 hn
    exact ⟨htrailing c hc, fun hnot => absurd (isComment_node c) hnot⟩

end JavaThrows.Cst
