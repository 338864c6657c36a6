import PreloopControl.Lib.SortedMap
import PreloopControl.Lib.Text

/-!
# The Graph of Needs

Three walks over the `needs` of jobs (`dag.rs`): a search for a cycle with an explicit stack and
three colours, the layers of the jobs whose needs are done, and the jobs that some jobs need.
A need may name no job; it is a node without needs.

Each walk is given a number of rounds; it answers nothing if they are used up. The sets of the
source are finite sets here.

## Main definitions

* `NeedsGraph`, `needsOf`: The graph.
* `detectNeedsCycle`: The search for a cycle.
* `topoLayers`: The layers.
* `dependencyClosure`: The jobs that are needed.
-/

namespace Preloop

namespace Workflow

/-- `NeedsGraph`. -/
abbrev NeedsGraph := SortedMap Text (List Text)

/-- The needs of a job. -/
def needsOf (edges : NeedsGraph) (node : Text) : List Text := (edges.lookup node).getD []

/-- The number of all needs. -/
def needsCount (edges : NeedsGraph) : Nat := (edges.entries.map fun e => e.2.length).sum

/-- `entry(key).or_insert(value)` for some keys. -/
def orInsertAll {V : Type} (value : V) (keys : List Text) (m : SortedMap Text V) :
    SortedMap Text V :=
  keys.foldl (fun m key => if (m.lookup key).isSome then m else m.insert key value) m

/-! ## The search for a cycle -/

/-- `Color`. -/
inductive Color
  | white
  | gray
  | black
deriving DecidableEq

/-- `Frame`. -/
structure Frame where
  node : Text
  deps : List Text

/-- The colours of nodes. -/
abbrev Colors := SortedMap Text Color

/-- The colour of a node; one that is not in the map is white. -/
def colorOf (color : Colors) (node : Text) : Color := (color.lookup node).getD .white

/-- `frame_for`. -/
def frameFor (edges : NeedsGraph) (node : Text) : Frame := ⟨node, needsOf edges node⟩

/-- The loop over the stack, its top in front: the colours at its end, or the witness of a cycle. -/
def walkStack (edges : NeedsGraph) : Nat → List Frame → Colors → Option (Except Text Colors)
  | _, [], color => some (.ok color)
  | 0, _ :: _, _ => none
  | n + 1, ⟨node, []⟩ :: stack, color => walkStack edges n stack (color.insert node .black)
  | n + 1, ⟨node, dep :: deps⟩ :: stack, color =>
    match colorOf color dep with
    | .gray => some (.error dep)
    | .white =>
      walkStack edges n (frameFor edges dep :: ⟨node, deps⟩ :: stack) (color.insert dep .gray)
    | .black => walkStack edges n (⟨node, deps⟩ :: stack) color

/-- The loop over the roots. -/
def walkRoots (edges : NeedsGraph) (rounds : Nat) :
    List Text → Colors → Option (Except Text Colors)
  | [], color => some (.ok color)
  | root :: roots, color =>
    if color.lookup root ≠ some .white then walkRoots edges rounds roots color
    else
      match walkStack edges rounds [frameFor edges root] (color.insert root .gray) with
      | none => none
      | some (.error witness) => some (.error witness)
      | some (.ok color) => walkRoots edges rounds roots color

/-- All nodes, white: the jobs, and what they need. -/
def initialColors (edges : NeedsGraph) : Colors :=
  orInsertAll .white (edges.entries.flatMap (·.2)) (edges.mapValues fun _ => .white)

/-- The rounds of a search: every need is looked at once, and every node is finished once. -/
def walkRounds (edges : NeedsGraph) : Nat :=
  needsCount edges + (initialColors edges).entries.length

/-- `detect_needs_cycle`. -/
def detectNeedsCycle (edges : NeedsGraph) : Option (Except Text Unit) :=
  let color := initialColors edges
  (walkRoots edges (walkRounds edges) (color.entries.map (·.1)) color).map fun outcome =>
    outcome.map fun _ => ()

/-! ## Layers -/

/-- `remaining`: every node with the set of its needs. -/
def remainingNeeds (edges : NeedsGraph) : SortedMap Text (Finset Text) :=
  orInsertAll ∅ (edges.entries.flatMap (·.2)) (edges.mapValues List.toFinset)

/-- The nodes that are not done and whose needs are. -/
def readyLayer (remaining : SortedMap Text (Finset Text)) (done : Finset Text) : List Text :=
  (remaining.entries.filter fun e => e.1 ∉ done ∧ e.2 ⊆ done).map (·.1)

/-- The loop over the layers: nothing if a layer is empty. -/
def layerLoop (remaining : SortedMap Text (Finset Text)) :
    Nat → Finset Text → List (List Text) → Option (Option (List (List Text)))
  | n, done, layers =>
    if remaining.entries.length ≤ done.card then some (some layers)
    else
      match n with
      | 0 => none
      | n + 1 =>
        let layer := readyLayer remaining done
        if layer = [] then some none
        else layerLoop remaining n (done ∪ layer.toFinset) (layers ++ [layer])

/-- `topo_layers`. -/
def topoLayers (edges : NeedsGraph) : Option (Option (List (List Text))) :=
  let remaining := remainingNeeds edges
  layerLoop remaining remaining.entries.length ∅ []

/-! ## What is needed -/

/-- The loop over the stack, its top in front. -/
def closureLoop (edges : NeedsGraph) : Nat → List Text → Finset Text → Option (Finset Text)
  | _, [], closed => some closed
  | 0, _ :: _, _ => none
  | n + 1, node :: stack, closed =>
    if node ∈ closed then closureLoop edges n stack closed
    else
      let closed := insert node closed
      closureLoop edges n (((needsOf edges node).filter (· ∉ closed)).reverse ++ stack) closed

/-- `dependency_closure`. -/
def dependencyClosure (edges : NeedsGraph) (roots : List Text) : Option (Finset Text) :=
  closureLoop edges (roots.length + needsCount edges) roots.reverse ∅

end Workflow

end Preloop
