import Mathlib.Tactic

/-! # Markup documents

Document trees in the manner of a DOM: elements with attributes and children, text, comments
and processing instructions.  A `Document` has exactly one root element by construction, with
the nodes before and after it kept apart.

The readers of such a tree look for the first child element with a given tag
(`firstChildElement`) and take its text (`childText`); the writers append children, set
attributes, or replace the children of the first element with a tag (`modifyFirst`).  The
lemmas say which writes a first-match reader can see. -/

namespace Markup

/-- A node of a document. -/
inductive Node where
  | element (tag : String) (attributes : List (String × String)) (children : List Node)
  | text (s : String)
  | cdata (s : String)
  | comment (s : String)
  | instruction (target data : String)

/-- The text below a node: all character data, in document order. -/
def Node.content : Node → String
  | .element _ _ children => contents children
  | .text s => s
  | .cdata s => s
  | .comment _ => ""
  | .instruction _ _ => ""
where
  contents : List Node → String
    | [] => ""
    | n :: ns => n.content ++ contents ns

/-- An element node. -/
structure Element where
  tag : String
  attributes : List (String × String) := []
  children : List Node := []

/-- A document: one root element, and what stands before and after it. -/
structure Document where
  before : List Node := []
  root : Element
  after : List Node := []

/-- The element at a node, if the node is one. -/
def Node.toElement : Node → Option Element
  | .element tag attributes children => some ⟨tag, attributes, children⟩
  | _ => none

/-- The first element with tag `tag` in a list of nodes. -/
def firstElement (tag : String) (ns : List Node) : Option Element :=
  ns.findSome? fun n => n.toElement.filter (·.tag = tag)

/-- Replace the children of the first element with tag `tag` by `f` of them. -/
def modifyFirst (tag : String) (f : List Node → List Node) : List Node → List Node
  | [] => []
  | .element t attributes children :: ns =>
      if t = tag then .element t attributes (f children) :: ns
      else .element t attributes children :: modifyFirst tag f ns
  | n :: ns => n :: modifyFirst tag f ns

namespace Element

def toNode (e : Element) : Node := .element e.tag e.attributes e.children

def text (e : Element) : String := e.toNode.content

def firstChildElement (e : Element) (tag : String) : Option Element := firstElement tag e.children

/-- The text of the first child element with tag `tag`, empty when there is none. -/
def childText (e : Element) (tag : String) : String := ((e.firstChildElement tag).map text).getD ""

def appendChild (e : Element) (n : Node) : Element := { e with children := e.children ++ [n] }

/-- Set an attribute, in its old place when it is there already. -/
def setAttribute (e : Element) (name value : String) : Element :=
  { e with attributes :=
      if e.attributes.any (·.1 == name) then
        e.attributes.map fun a => if a.1 = name then (name, value) else a
      else e.attributes ++ [(name, value)] }

/-- An element with tag `tag` and the text `s`. -/
def ofText (tag s : String) : Element := { tag := tag, children := [.text s] }

@[simp] theorem ofText_text (tag s : String) : (ofText tag s).text = s := by
  simp [ofText, text, toNode, Node.content, Node.content.contents]

end Element

/-! ### First matches -/

theorem firstElement_append (tag : String) (ns ms : List Node) :
    firstElement tag (ns ++ ms) = (firstElement tag ns).or (firstElement tag ms) := by
  simp [firstElement, List.findSome?_append]

theorem firstElement_element (e : Element) (tag : String) :
    firstElement tag [e.toNode] = if e.tag = tag then some e else none := by
  have he : e.toNode.toElement = some e := rfl
  by_cases h : e.tag = tag <;> simp [firstElement, he, h]

/-- Changing the children of an element with another tag is not seen. -/
theorem firstElement_modifyFirst {tag tag' : String} (h : tag' ≠ tag) (f : List Node → List Node) :
    ∀ ns : List Node, firstElement tag (modifyFirst tag' f ns) = firstElement tag ns
  | [] => rfl
  | .element t attributes children :: ns => by
      have ih := firstElement_modifyFirst h f ns
      unfold firstElement at ih ⊢
      by_cases ht : t = tag'
      · have hne : t ≠ tag := fun h' => h (ht.symm.trans h')
        simp [modifyFirst, ht, Node.toElement, h]
      · simp [modifyFirst, ht, List.findSome?_cons, ih]
  | .text s :: ns => by
      simpa [firstElement, modifyFirst, Node.toElement] using firstElement_modifyFirst h f ns
  | .cdata s :: ns => by
      simpa [firstElement, modifyFirst, Node.toElement] using firstElement_modifyFirst h f ns
  | .comment s :: ns => by
      simpa [firstElement, modifyFirst, Node.toElement] using firstElement_modifyFirst h f ns
  | .instruction t d :: ns => by
      simpa [firstElement, modifyFirst, Node.toElement] using firstElement_modifyFirst h f ns

namespace Element

/-- An appended element is the first match only if there was none before it. -/
theorem firstChildElement_appendChild (e e' : Element) (tag : String) :
    (e.appendChild e'.toNode).firstChildElement tag =
      (e.firstChildElement tag).or (if e'.tag = tag then some e' else none) := by
  simp [firstChildElement, appendChild, firstElement_append, firstElement_element]

theorem firstChildElement_appendChild_ne (e e' : Element) {tag : String} (h : e'.tag ≠ tag) :
    (e.appendChild e'.toNode).firstChildElement tag = e.firstChildElement tag := by
  simp [firstChildElement_appendChild, h]

end Element

end Markup
