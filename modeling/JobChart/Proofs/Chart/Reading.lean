import Mathlib.Tactic.SplitIfs
import JobChart.Chart.Ident
import JobChart.Chart.Line
import JobChart.Proofs.Text.Join
import JobChart.Proofs.Text.Numeral

/-!
# Reading a chart's text

When the text of a chart is read as the lines that it was made from. A line is
sound when its ids are ids, what it puts between quotes may stand there, and
the class it names is defined. Of a sound line the text alone says what kind
of line it is (`kindOf_text`), and it holds no line break; so the text of sound
lines is cut at the line breaks into their texts, each of one kind only
(`readsAs_textOf`).

Texts are described by the characters they are made of (`Made`), and those of
a longer text are found from its pieces.
-/

namespace JobChart.Chart

open Text

/-! ## Ids and plain texts -/

/-- The text is made of these characters. -/
def Made (p : Char → Bool) (s : String) : Prop := ∀ c ∈ s.toList, p c = true

instance (p : Char → Bool) (s : String) : Decidable (Made p s) :=
  decidable_of_iff (s.toList.all p = true) List.all_eq_true

def IsId (s : String) : Prop := s ≠ "" ∧ Made isIdChar s

instance (s : String) : Decidable (IsId s) :=
  inferInstanceAs (Decidable (s ≠ "" ∧ Made isIdChar s))

/-- A character that may stand between quotes. -/
def isPlainChar (c : Char) : Bool := c != '"' && c != '\n'

/-- The text may stand between quotes as it is: it holds no double quote and no
line break. -/
def Plain (s : String) : Prop := Made isPlainChar s

instance (s : String) : Decidable (Plain s) := inferInstanceAs (Decidable (Made isPlainChar s))

def Unbroken (s : String) : Prop := Made (· != '\n') s

instance (s : String) : Decidable (Unbroken s) :=
  inferInstanceAs (Decidable (Made (· != '\n') s))

section

variable {p q : Char → Bool} {s t : String}

theorem Made.not_mem (h : Made p s) {c : Char} (hc : p c = false) : c ∉ s.toList := by
  intro hmem
  rw [h c hmem] at hc
  cases hc

theorem Made.mono (h : Made p s) (hpq : ∀ c, p c = true → q c = true) : Made q s :=
  fun c hc => hpq c (h c hc)

theorem Made.plain (h : Made p s) (hquote : p '"' = false) (hbreak : p '\n' = false) :
    Plain s := by
  intro c hc
  have hp := h c hc
  have hne : c ≠ '"' ∧ c ≠ '\n' := by
    constructor <;> rintro rfl <;> simp_all
  simp [isPlainChar, hne]

theorem Plain.unbroken (h : Plain s) : Unbroken s :=
  h.mono fun c hc => by rw [isPlainChar, Bool.and_eq_true] at hc; exact hc.2

theorem Unbroken.not_mem (h : Unbroken s) : '\n' ∉ s.toList := Made.not_mem h (by decide)

theorem Unbroken.plain (h : Unbroken s) (hquote : '"' ∉ s.toList) : Plain s := by
  intro c hc
  have hbreak : (c != '\n') = true := h c hc
  rw [isPlainChar, hbreak, Bool.and_true, bne_iff_ne]
  rintro rfl
  exact hquote hc

theorem made_append : Made p (s ++ t) ↔ Made p s ∧ Made p t := by
  simp only [Made, String.toList_append, List.mem_append, or_imp, forall_and]

theorem Made.append (hs : Made p s) (ht : Made p t) : Made p (s ++ t) := made_append.mpr ⟨hs, ht⟩

theorem plain_append : Plain (s ++ t) ↔ Plain s ∧ Plain t := made_append

theorem made_joinWith (hs : Made p s) {ss : List String} (hss : ∀ t ∈ ss, Made p t) :
    Made p (joinWith s ss) := by
  intro c hc
  rcases mem_or_mem_of_mem_joinWith hc with hc | ⟨t, ht, hc⟩
  · exact hs c hc
  · exact hss t ht c hc

theorem IsId.append (hs : IsId s) (ht : Made isIdChar t) : IsId (s ++ t) :=
  ⟨fun h => hs.1 (String.append_eq_empty_iff.mp h).1, hs.2.append ht⟩

theorem Made.append_id (hs : Made isIdChar s) (ht : IsId t) : IsId (s ++ t) :=
  ⟨fun h => ht.1 (String.append_eq_empty_iff.mp h).2, hs.append ht.2⟩

theorem made_idOf (name : String) : Made isIdChar (idOf name) := by
  intro c hc
  rw [idOf, String.toList_map] at hc
  obtain ⟨b, -, rfl⟩ := List.mem_map.mp hc
  split_ifs with hb
  · exact hb
  · rfl

theorem made_nat (n : Nat) : Made isIdChar (toString n) := by
  intro c hc
  rw [Nat.toString_eq_repr, Nat.toList_repr] at hc
  have hdigit : c.isDigit = true := Nat.isDigit_of_mem_toDigits (by decide) (by decide) hc
  simp [isIdChar, Char.isAlphanum, hdigit]

/-- Whatever the text, escaping makes it plain. -/
theorem plain_escapeLabel (s : String) : Plain (escapeLabel s) := by
  have hquot : Plain "#quot;" := by decide
  have hbr : Plain "<br/>" := by decide
  have hescape : ∀ b, ∀ c ∈ escapeChar b, isPlainChar c = true := by
    intro b
    rw [escapeChar]
    split_ifs with hquote hbreak
    · exact hquot
    · exact hbr
    · simp [isPlainChar, hquote, hbreak]
  intro c hc
  rw [escapeLabel, String.toList_ofList] at hc
  obtain ⟨b, -, hb⟩ := List.mem_flatMap.mp (List.mem_of_mem_take hc)
  exact hescape b c hb

end

/-! ## Sound lines -/

/-- The class that a shape names is one of these. -/
def Shape.Within (classes : List String) : Shape → Prop
  | .box => True
  | .stadium cls => cls ∈ classes
  | .diamond cls => cls ∈ classes

/-- A node that can be read: an id, a plain label and a defined class. -/
structure Node.Sound (classes : List String) (n : Node) : Prop where
  id : IsId n.id
  label : Plain n.label
  shape : n.shape.Within classes

/-- An edge that can be read: two ids, and one word at most on its arrow. -/
structure Edge.Sound (e : Edge) : Prop where
  source : IsId e.source
  target : IsId e.target
  arrow : e.arrow = solid ∨ e.arrow = dashed
  label : ∀ t, e.label = some t → IsId t

/-- A character that may stand in the properties of a class. -/
def isStyleChar (c : Char) : Bool := isIdChar c || c == '-' || c == '#' || c == ' '

/-- The definition of a class that can be read. -/
structure ClassDef.Sound (d : ClassDef) : Prop where
  name : IsId d.name
  props : d.props ≠ []
  style : ∀ p ∈ d.props, Made isStyleChar p.1 ∧ Made isStyleChar p.2

/-- An item that can be read, where these classes are defined. -/
def Item.Sound (classes : List String) : Item → Prop
  | .header _ => True
  | .boxOpen id title => IsId id ∧ Plain title
  | .boxClose => True
  | .node n => n.Sound classes
  | .edge e => e.Sound
  | .classDef d => d.Sound

/-- A line that can be read: a sound item behind spaces. -/
structure Line.Sound (classes : List String) (l : Line) : Prop where
  indent : Made (· == ' ') l.indent
  item : l.item.Sound classes

/-! ## What their texts are made of

Around what it quotes a line has the characters of a frame; an edge and the
definition of a class have others, and neither of them a double quote. -/

def isFrameChar (c : Char) : Bool := isIdChar c || c ∈ "[](): \x7b\x7d".toList

def isEdgeChar (c : Char) : Bool := isIdChar c || c ∈ " -.>|".toList

def isClassChar (c : Char) : Bool := isStyleChar c || c ∈ ":,".toList

section

variable {classes : List String} {s front label : String}

theorem Made.frame (h : Made isIdChar s) : Made isFrameChar s :=
  h.mono fun c hc => by simp [isFrameChar, hc]

theorem Made.edge (h : Made isIdChar s) : Made isEdgeChar s :=
  h.mono fun c hc => by simp [isEdgeChar, hc]

theorem Made.style (h : Made isStyleChar s) : Made isClassChar s :=
  h.mono fun c hc => by simp [isClassChar, hc]

theorem Made.cls (h : Made isIdChar s) : Made isClassChar s :=
  h.mono fun c hc => by simp [isClassChar, isStyleChar, hc]

theorem Edge.Sound.made {e : Edge} (h : e.Sound) : Made isEdgeChar e.text := by
  have harrow : Made isEdgeChar e.arrow := by
    rcases h.arrow with harrow | harrow <;> rw [harrow] <;> decide
  have hspace : Made isEdgeChar " " := by decide
  rw [Edge.text]
  split
  · next label hlabel =>
    have hword := h.label label (Option.filter_eq_some_iff.mp hlabel).1
    have hopen : Made isEdgeChar "|" := by decide
    have hclose : Made isEdgeChar "| " := by decide
    exact (((((h.source.2.edge.append hspace).append harrow).append hopen).append
      hword.2.edge).append hclose).append h.target.2.edge
  · exact (((h.source.2.edge.append hspace).append harrow).append hspace).append h.target.2.edge

theorem Edge.Sound.mem_text {e : Edge} (h : e.Sound) : '>' ∈ e.text.toList := by
  have harrow : '>' ∈ e.arrow.toList := by
    rcases h.arrow with harrow | harrow <;> rw [harrow] <;> decide
  rw [Edge.text]
  split <;> simp [harrow]

theorem ClassDef.Sound.made {d : ClassDef} (h : d.Sound) : Made isClassChar d.text := by
  have hlead : Made isClassChar "classDef " := by decide
  have hspace : Made isClassChar " " := by decide
  have hcolon : Made isClassChar ":" := by decide
  refine ((hlead.append h.name.2.cls).append hspace).append (made_joinWith (by decide) ?_)
  intro t ht
  obtain ⟨⟨key, value⟩, hp, rfl⟩ := List.mem_map.mp ht
  obtain ⟨hkey, hvalue⟩ := h.style _ hp
  refine (Made.append ?_ hcolon).append hvalue.style
  intro c hc
  rw [String.toList_map] at hc
  obtain ⟨b, hb, rfl⟩ := List.mem_map.mp hc
  split_ifs
  · rfl
  · exact hkey.style b hb

theorem ClassDef.Sound.mem_text {d : ClassDef} (h : d.Sound) : ':' ∈ d.text.toList := by
  obtain ⟨p, props, hprops⟩ := List.exists_cons_of_ne_nil h.props
  rw [ClassDef.text, String.toList_append, List.mem_append, hprops, List.map_cons]
  exact Or.inr (mem_joinWith_head (by simp))

/-! ## Frames

A node and the start of a box put one label between quotes. What holds of the
whole text then hangs on the label alone. -/

/-- The text is this label in quotes, behind this front and before the back of
a frame. -/
def Framed (front label s : String) : Prop :=
  Made isFrameChar front ∧ ∃ back, Made isFrameChar back
    ∧ s = front ++ "\"" ++ label ++ "\"" ++ back

/-- Of some characters the framed text is made as soon as its label is. -/
theorem Framed.made (h : Framed front label s) {p : Char → Bool}
    (hframe : ∀ c, isFrameChar c = true → p c = true) (hquote : p '"' = true) :
    Made p s ↔ Made p label := by
  obtain ⟨hfront, back, hback, rfl⟩ := h
  have hmark : Made p "\"" := by
    intro c hc
    rw [List.mem_singleton.mp hc]
    exact hquote
  simp only [made_append, hfront.mono hframe, hback.mono hframe, hmark, true_and, and_true]

theorem Framed.unbroken (h : Framed front label s) : Unbroken s ↔ Unbroken label := by
  refine h.made (fun c hc => bne_iff_ne.mpr ?_) (by decide)
  rintro rfl
  revert hc
  decide

theorem Framed.count (h : Framed front label s) :
    s.toList.count '"' = label.toList.count '"' + 2 := by
  obtain ⟨hfront, back, hback, rfl⟩ := h
  have hf : front.toList.count '"' = 0 := List.count_eq_zero.mpr (hfront.not_mem (by decide))
  have hb : back.toList.count '"' = 0 := List.count_eq_zero.mpr (hback.not_mem (by decide))
  simp [List.count_append, hf, hb]

theorem Framed.takeWhile (h : Framed front label s) :
    s.toList.takeWhile (· != '"') = front.toList := by
  obtain ⟨hfront, back, -, rfl⟩ := h
  have hkept : ∀ c ∈ front.toList, (c != '"') = true := by
    rintro c hc
    exact bne_iff_ne.mpr fun h => hfront.not_mem (by decide) (h ▸ hc)
  simp only [String.toList_append, List.append_assoc]
  rw [List.takeWhile_append_of_pos hkept]
  simp

theorem Framed.behind {indent : String} (hindent : Made (· == ' ') indent)
    (h : Framed front label s) : Framed (indent ++ front) label (indent ++ s) := by
  obtain ⟨hfront, back, hback, rfl⟩ := h
  have hspaces : Made isFrameChar indent := hindent.mono fun c hc => by
    rw [beq_iff_eq.mp hc]
    decide
  exact ⟨hspaces.append hfront, back, hback, by simp only [String.append_assoc]⟩

/-- What stands between the id and the label of a node, up to the quote. -/
def Shape.opening : Shape → String
  | .box => "["
  | .stadium _ => "(["
  | .diamond _ => "\x7b"

/-- What stands behind the label of a node, from the quote on. -/
def Shape.closing : Shape → String
  | .box => "]"
  | .stadium cls => "]):::" ++ cls
  | .diamond cls => "\x7d:::" ++ cls

theorem Shape.made_opening (shape : Shape) :
    Made isFrameChar shape.opening ∧ ' ' ∉ shape.opening.toList := by
  cases shape <;> simp only [Shape.opening] <;> decide

theorem Shape.Within.made_closing {shape : Shape} (h : shape.Within classes)
    (hclasses : ∀ cls ∈ classes, IsId cls) : Made isFrameChar shape.closing := by
  have hstadium : Made isFrameChar "]):::" := by decide
  have hdiamond : Made isFrameChar "\x7d:::" := by decide
  cases shape with
  | box => decide
  | stadium cls => exact hstadium.append (hclasses cls h).2.frame
  | diamond cls => exact hdiamond.append (hclasses cls h).2.frame

theorem framed_node {n : Node} (hid : IsId n.id) (hshape : n.shape.Within classes)
    (hclasses : ∀ cls ∈ classes, IsId cls) :
    Framed (n.id ++ n.shape.opening) n.label n.text := by
  refine ⟨hid.2.frame.append n.shape.made_opening.1, n.shape.closing,
    hshape.made_closing hclasses, String.toList_inj.mp ?_⟩
  obtain ⟨id, label, shape⟩ := n
  cases shape <;> simp [Node.text, Shape.opening, Shape.closing]

theorem framed_boxOpen {id : String} (hid : IsId id) (title : String) :
    Framed ("subgraph " ++ id ++ " [") title (Item.boxOpen id title).text := by
  have hlead : Made isFrameChar "subgraph " := by decide
  refine ⟨(hlead.append hid.2.frame).append (by decide), "]", by decide,
    String.toList_inj.mp ?_⟩
  simp [Item.text]

/-! ## The kind of a line -/

inductive LineKind where
  | header
  | boxOpen
  | boxClose
  | node
  | edge
  | classDef
deriving DecidableEq, Repr

def Item.kind : Item → LineKind
  | .header _ => .header
  | .boxOpen .. => .boxOpen
  | .boxClose => .boxClose
  | .node _ => .node
  | .edge _ => .edge
  | .classDef _ => .classDef

/-- The kind of line a text is: only boxes and nodes have quotes, only edges an
arrow, and only classes a colon. -/
def kindOf (cs : List Char) : LineKind :=
  let body := cs.dropWhile (· == ' ')
  if '"' ∈ body then if ' ' ∈ body.takeWhile (· != '"') then .boxOpen else .node
  else if '>' ∈ body then .edge
  else if ':' ∈ body then .classDef
  else if ' ' ∈ body then .header
  else .boxClose

theorem Item.Sound.framed {i : Item} (h : i.Sound classes)
    (hclasses : ∀ cls ∈ classes, IsId cls) (hkind : i.kind = .node ∨ i.kind = .boxOpen) :
    ∃ front label, Framed front label i.text ∧ Plain label
      ∧ (' ' ∈ front.toList ↔ i.kind = .boxOpen) := by
  cases i with
  | node n =>
      obtain ⟨hid, hlabel, hshape⟩ := h
      have hspace : ' ' ∉ n.id.toList := hid.2.not_mem (by decide)
      refine ⟨_, n.label, framed_node hid hshape hclasses, hlabel, ?_⟩
      simp [hspace, n.shape.made_opening.2, Item.kind]
  | boxOpen id title =>
      refine ⟨_, title, framed_boxOpen h.1 title, h.2, ?_⟩
      simp [Item.kind]
  | _ => rcases hkind with hkind | hkind <;> cases hkind

theorem Item.Sound.bare {i : Item} (h : i.Sound classes)
    (hkind : i.kind ≠ .node ∧ i.kind ≠ .boxOpen) : Plain i.text := by
  cases i with
  | node n => exact absurd rfl hkind.1
  | boxOpen id title => exact absurd rfl hkind.2
  | header d => cases d <;> decide
  | boxClose => decide
  | edge e => exact (Edge.Sound.made h).plain (by decide) (by decide)
  | classDef d => exact (ClassDef.Sound.made h).plain (by decide) (by decide)

theorem IsId.dropSpaces (h : IsId s) (cs : List Char) :
    (s.toList ++ cs).dropWhile (· == ' ') = s.toList ++ cs := by
  have hspace : ' ' ∉ s.toList := h.2.not_mem (by decide)
  cases hs : s.toList with
  | nil => exact absurd (String.toList_eq_nil_iff.mp hs) h.1
  | cons c rest =>
      have hne : (c == ' ') = false := beq_false_of_ne fun heq => by simp [hs, heq] at hspace
      rw [List.cons_append, List.dropWhile_cons, hne, if_neg Bool.false_ne_true]

theorem Item.Sound.dropSpaces {i : Item} (h : i.Sound classes) :
    i.text.toList.dropWhile (· == ' ') = i.text.toList := by
  cases i with
  | header d => simp [Item.text]
  | boxOpen id title => simp [Item.text]
  | boxClose => decide
  | node n =>
      obtain ⟨id, label, shape⟩ := n
      cases shape <;>
        simp only [Item.text, Node.text, String.toList_append, List.append_assoc] <;>
        exact (Node.Sound.id h).dropSpaces _
  | edge e =>
      rw [Item.text, Edge.text]
      split <;> simp only [String.toList_append, List.append_assoc] <;>
        exact (Edge.Sound.source h).dropSpaces _
  | classDef d => simp [Item.text, ClassDef.text]

theorem Line.Sound.dropSpaces {l : Line} (h : l.Sound classes) :
    l.text.toList.dropWhile (· == ' ') = l.item.text.toList := by
  rw [Line.text, String.toList_append, List.dropWhile_append_of_pos h.indent, h.item.dropSpaces]

/-- The text of a sound line says of what kind it is. -/
theorem kindOf_text {l : Line} (h : l.Sound classes) (hclasses : ∀ cls ∈ classes, IsId cls) :
    kindOf l.text.toList = l.item.kind := by
  have hitem := h.item
  rw [kindOf, h.dropSpaces]
  by_cases hkind : l.item.kind = .node ∨ l.item.kind = .boxOpen
  · obtain ⟨front, label, hframed, -, hspace⟩ := hitem.framed hclasses hkind
    have hcount := hframed.count
    rw [if_pos (List.count_pos_iff.mp (by omega)), hframed.takeWhile]
    rcases hkind with hkind | hkind <;> simp [hspace, hkind]
  · rw [not_or] at hkind
    rw [if_neg ((hitem.bare hkind).not_mem (by decide))]
    cases hi : l.item with
    | header d => cases d <;> decide
    | boxClose => decide
    | edge e =>
        rw [hi] at hitem
        exact if_pos (Edge.Sound.mem_text hitem)
    | classDef d =>
        rw [hi] at hitem
        have harrow : '>' ∉ (Item.classDef d).text.toList :=
          (ClassDef.Sound.made hitem).not_mem (by decide)
        rw [if_neg harrow]
        exact if_pos (ClassDef.Sound.mem_text hitem)
    | node n => exact absurd (hi ▸ rfl) hkind.1
    | boxOpen id title => exact absurd (hi ▸ rfl) hkind.2

/-! ## Edges

The text of a sound edge gives the edge back: up to the first space it is the
source, then comes one of the two arrows, and a label stands between bars. -/

/-- A text is cut at the first of these characters in one way only. -/
theorem first_part_inj {x : Char} {a b c d : List Char} (ha : x ∉ a) (hc : x ∉ c)
    (h : a ++ x :: b = c ++ x :: d) : a = c ∧ b = d := by
  have htake : ∀ {l : List Char} (r : List Char), x ∉ l →
      (l ++ x :: r).takeWhile (· != x) = l := by
    intro l r hl
    have hkept : ∀ y ∈ l, (y != x) = true := fun y hy => bne_iff_ne.mpr fun heq => hl (heq ▸ hy)
    rw [List.takeWhile_append_of_pos hkept]
    simp
  have hfront : a = c := by rw [← htake b ha, h, htake d hc]
  rw [hfront] at h
  exact ⟨hfront, (List.cons.inj (List.append_cancel_left h)).2⟩

/-- What stands behind the arrow of an edge. -/
def Edge.behindArrow (e : Edge) : List Char :=
  match e.label with
  | some label => '|' :: label.toList ++ '|' :: ' ' :: e.target.toList
  | none => ' ' :: e.target.toList

theorem Edge.Sound.toList_text {e : Edge} (h : e.Sound) :
    e.text.toList = e.source.toList ++ ' ' :: (e.arrow.toList ++ e.behindArrow) := by
  obtain ⟨source, target, label, arrow⟩ := e
  cases label with
  | none => simp [Edge.text, Edge.behindArrow]
  | some t =>
      have hne : t ≠ "" := (h.label t rfl).1
      simp [Edge.text, Edge.behindArrow, Option.filter, hne]

/-- The two arrows differ in their second character. -/
theorem arrow_inj {a b : String} {cs ds : List Char} (ha : a = solid ∨ a = dashed)
    (hb : b = solid ∨ b = dashed) (h : a.toList ++ cs = b.toList ++ ds) : a = b ∧ cs = ds := by
  rcases ha with rfl | rfl <;> rcases hb with rfl | rfl
  · exact ⟨rfl, List.append_cancel_left h⟩
  · simp [solid, dashed] at h
  · simp [solid, dashed] at h
  · exact ⟨rfl, List.append_cancel_left h⟩

theorem Edge.Sound.text_inj {e e' : Edge} (h : e.Sound) (h' : e'.Sound) (heq : e.text = e'.text) :
    e = e' := by
  have hchars := congrArg String.toList heq
  rw [h.toList_text, h'.toList_text] at hchars
  obtain ⟨hsource, hrest⟩ := first_part_inj (h.source.2.not_mem (by decide))
    (h'.source.2.not_mem (by decide)) hchars
  obtain ⟨source, target, label, arrow⟩ := e
  obtain ⟨source', target', label', arrow'⟩ := e'
  obtain rfl : source = source' := String.toList_inj.mp hsource
  obtain ⟨rfl, hbehind⟩ := arrow_inj h.arrow h'.arrow hrest
  cases label with
  | none =>
      cases label' with
      | none =>
          obtain rfl : target = target' := String.toList_inj.mp (List.cons.inj hbehind).2
          rfl
      | some t' => cases (List.cons.inj hbehind).1
  | some t =>
      cases label' with
      | none => cases (List.cons.inj hbehind).1
      | some t' =>
          obtain ⟨hlabel, htarget⟩ := first_part_inj ((h.label t rfl).2.not_mem (by decide))
            ((h'.label t' rfl).2.not_mem (by decide)) (List.cons.inj hbehind).2
          obtain rfl : t = t' := String.toList_inj.mp hlabel
          obtain rfl : target = target' := String.toList_inj.mp (List.cons.inj htarget).2
          rfl

/-- A sound line with the text of a sound edge is this edge, behind the same
spaces. -/
theorem Line.Sound.eq_edge {classes : List String} {l : Line} {indent : String} {e : Edge}
    (h : l.Sound classes) (hclasses : ∀ cls ∈ classes, IsId cls)
    (hindent : Made (· == ' ') indent) (he : e.Sound) (htext : l.text = (Line.edge indent e).text) :
    l = Line.edge indent e := by
  have hedge : (Line.edge indent e).Sound classes := ⟨hindent, he⟩
  have hitem : l.item.text = e.text := by
    rw [← String.toList_inj, ← h.dropSpaces, htext]
    exact hedge.dropSpaces
  have hkind : l.item.kind = .edge := by
    rw [← kindOf_text h hclasses, htext]
    exact kindOf_text hedge hclasses
  obtain ⟨spaces, item⟩ := l
  cases item with
  | edge e' =>
      obtain rfl := Edge.Sound.text_inj h.item he hitem
      obtain rfl : spaces = indent := (String.append_left_inj _).mp htext
      rfl
  | _ => cases hkind

/-! ## Whole charts -/

/-- A line with a label has no other quotes than those around it. -/
theorem Line.Sound.labelled {l : Line} (h : l.Sound classes)
    (hclasses : ∀ cls ∈ classes, IsId cls) (hkind : l.item.kind = .node ∨ l.item.kind = .boxOpen) :
    Unbroken l.text ∧ l.text.toList.count '"' = 2 := by
  obtain ⟨front, label, hframed, hlabel, -⟩ := h.item.framed hclasses hkind
  have hline := hframed.behind h.indent
  refine ⟨hline.unbroken.mpr hlabel.unbroken, ?_⟩
  have hquote : '"' ∉ label.toList := hlabel.not_mem (by decide)
  rw [Line.text, hline.count, List.count_eq_zero.mpr hquote]

/-- Any other line has none. -/
theorem Line.Sound.bare {l : Line} (h : l.Sound classes)
    (hkind : l.item.kind ≠ .node ∧ l.item.kind ≠ .boxOpen) : Plain l.text :=
  plain_append.mpr ⟨h.indent.plain (by decide) (by decide), h.item.bare hkind⟩

/-- A sound line holds no line break, and it has two quotes or none. -/
theorem Line.Sound.text {l : Line} (h : l.Sound classes) (hclasses : ∀ cls ∈ classes, IsId cls) :
    Unbroken l.text ∧ (l.text.toList.count '"' = 0 ∨ l.text.toList.count '"' = 2) := by
  by_cases hkind : l.item.kind = .node ∨ l.item.kind = .boxOpen
  · exact (h.labelled hclasses hkind).imp_right Or.inr
  · have hplain := h.bare (not_or.mp hkind)
    exact ⟨hplain.unbroken, Or.inl (List.count_eq_zero.mpr (hplain.not_mem (by decide)))⟩

end

def class? (l : Line) : Option String :=
  match l.item with
  | .classDef d => some d.name
  | _ => none

/-- The classes that these lines define. -/
def classesOf (ls : List Line) : List String := ls.filterMap class?

/-- Each box is closed before the next one opens, and none is left open;
`inside` says whether a box is open at the start. -/
def boxesAlternate : (inside : Bool) → List Line → Bool
  | inside, [] => !inside
  | inside, l :: ls =>
    match l.item.kind with
    | .boxOpen => !inside && boxesAlternate true ls
    | .boxClose => inside && boxesAlternate false ls
    | _ => boxesAlternate inside ls

/-- The line is no end of a box. -/
def Line.Inner (l : Line) : Prop := l.item.kind ≠ .boxOpen ∧ l.item.kind ≠ .boxClose

theorem boxesAlternate_inner {inside : Bool} {as : List Line} (bs : List Line)
    (h : ∀ l ∈ as, l.Inner) : boxesAlternate inside (as ++ bs) = boxesAlternate inside bs := by
  induction as with
  | nil => rfl
  | cons l as ih =>
      obtain ⟨hopen, hclose⟩ := h l List.mem_cons_self
      rw [List.cons_append, boxesAlternate, ih fun l' hl' => h l' (List.mem_cons_of_mem l hl')]
      split
      · contradiction
      · contradiction
      · rfl

theorem boxesAlternate_box {id title : String} {as : List Line} (bs : List Line)
    (h : ∀ l ∈ as, l.Inner) :
    boxesAlternate false (Line.boxOpen id title :: as ++ [Line.boxClose] ++ bs)
      = boxesAlternate false bs := by
  have hinside : boxesAlternate true (as ++ (Line.boxClose :: bs)) = boxesAlternate false bs :=
    boxesAlternate_inner _ h
  simpa [boxesAlternate, Line.boxOpen, Item.kind] using hinside

/-- A text is read as these lines. -/
structure ReadsAs (d : Direction) (code : String) (ls : List Line) : Prop where
  /-- Cut at the line breaks it gives their texts. -/
  texts : code.toList.splitOn '\n' = ls.map fun l => l.text.toList
  /-- The first is the header. -/
  header : ls.head? = some (Line.header d)
  /-- Each can be read, and the classes it names are defined by one of them. -/
  sound : ∀ l ∈ ls, l.Sound (classesOf ls)
  /-- None can be read as a line of another kind. -/
  kinds : ∀ l ∈ ls, ∀ l' : Line, l'.Sound (classesOf ls) → l'.text = l.text →
    l'.item.kind = l.item.kind
  /-- The boxes are opened and closed in turn. -/
  boxes : boxesAlternate false ls = true

theorem classesOf_append (as bs : List Line) :
    classesOf (as ++ bs) = classesOf as ++ classesOf bs :=
  List.filterMap_append

theorem Line.Sound.mono {classes classes' : List String} {l : Line} (h : l.Sound classes)
    (hsub : ∀ cls ∈ classes, cls ∈ classes') : l.Sound classes' := by
  obtain ⟨hindent, hitem⟩ := h
  refine ⟨hindent, ?_⟩
  obtain ⟨indent, item⟩ := l
  cases item with
  | node n =>
      obtain ⟨hid, hlabel, hshape⟩ := hitem
      refine ⟨hid, hlabel, ?_⟩
      cases hn : n.shape with
      | box => trivial
      | stadium cls => rw [hn] at hshape; exact hsub cls hshape
      | diamond cls => rw [hn] at hshape; exact hsub cls hshape
  | _ => exact hitem

section

variable {d : Direction} {ls : List Line}

theorem isId_of_mem_classesOf {classes : List String} (h : ∀ l ∈ ls, l.Sound classes) :
    ∀ cls ∈ classesOf ls, IsId cls := by
  intro cls hcls
  obtain ⟨l, hl, hclass⟩ := List.mem_filterMap.mp hcls
  have hitem := (h l hl).item
  rw [class?] at hclass
  split at hclass
  · next d hd =>
    rw [hd] at hitem
    exact Option.some.inj hclass ▸ ClassDef.Sound.name hitem
  · cases hclass

theorem splitOn_textOf (hne : ls ≠ []) (h : ∀ l ∈ ls, Unbroken l.text) :
    (textOf ls).toList.splitOn '\n' = ls.map fun l => l.text.toList := by
  have hbreak : ∀ t ∈ ls.map Line.text, '\n' ∉ t.toList := by
    intro t ht
    obtain ⟨l, hl, rfl⟩ := List.mem_map.mp ht
    exact (h l hl).not_mem
  have hcut := splitOn_joinWith (by simpa using hne) hbreak
  rw [List.map_map] at hcut
  exact hcut

/-- The text of sound lines is read as these lines. -/
theorem readsAs_textOf (hheader : ls.head? = some (Line.header d))
    (hsound : ∀ l ∈ ls, l.Sound (classesOf ls)) (hboxes : boxesAlternate false ls = true) :
    ReadsAs d (textOf ls) ls where
  texts := by
    refine splitOn_textOf ?_ fun l hl => ((hsound l hl).text (isId_of_mem_classesOf hsound)).1
    rintro rfl
    cases hheader
  header := hheader
  sound := hsound
  kinds := by
    intro l hl l' hl' htext
    have hclasses := isId_of_mem_classesOf hsound
    rw [← kindOf_text hl' hclasses, ← kindOf_text (hsound l hl) hclasses, htext]
  boxes := hboxes

end

end JobChart.Chart
