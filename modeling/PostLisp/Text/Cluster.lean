import PostLisp.Text.ClusterClass

/-!
# Clusters

A text falls into clusters, each as long as its characters hold together. Whether a character
belongs to the cluster before it depends on its class and on the classes that stand before it.
Clusters are stretches of the text: put behind one another they give it back.
-/

namespace PostLisp.Text

namespace ClusterClass

/-- A cluster by itself; only a line feed belongs to the carriage return before it. -/
def standsAlone : ClusterClass → Bool
  | .carriageReturn | .lineFeed | .control => true
  | _ => false

/-- Belongs to the cluster before it, whichever that is. -/
def attaches : ClusterClass → Bool
  | .extend | .linker | .nonJoiner | .joiner | .spacing => true
  | _ => false

/-- May stand between a pictograph and the joiner behind it. -/
def modifies : ClusterClass → Bool
  | .extend | .linker | .nonJoiner => true
  | _ => false

/-- May stand between two consonants of one cluster. -/
def standsInConjunct : ClusterClass → Bool
  | .extend | .linker | .joiner => true
  | _ => false

/-- Two parts of a syllable. -/
def sharesSyllable : ClusterClass → ClusterClass → Bool
  | .leading, .leading | .leading, .vowel | .leading, .openSyllable | .leading, .closedSyllable
  | .openSyllable, .vowel | .openSyllable, .trailing | .vowel, .vowel | .vowel, .trailing
  | .closedSyllable, .trailing | .trailing, .trailing => true
  | _, _ => false

end ClusterClass

open ClusterClass

/-- A pictograph, perhaps modified, and a joiner: what a further pictograph is joined to. Here and
below, the classes before a character come nearest first. -/
def awaitsPictograph : List ClusterClass → Bool
  | .joiner :: before => (before.dropWhile modifies).head? == some .pictograph
  | _ => false

/-- A consonant with a virama somewhere behind it: what a further consonant is linked to. -/
def awaitsConsonant (before : List ClusterClass) : Bool :=
  (before.takeWhile standsInConjunct).contains .linker &&
    (before.dropWhile standsInConjunct).head? == some .consonant

/-- A regional indicator that is not yet paired: two of them are a flag. -/
def awaitsRegional (before : List ClusterClass) : Bool :=
  (before.takeWhile (· == .regional)).length % 2 == 1

/-- Whether a character belongs to the cluster before it. -/
def continues (before : List ClusterClass) (next : ClusterClass) : Bool :=
  match before with
  | [] => false
  | last :: _ =>
    if last.standsAlone || next.standsAlone then last == .carriageReturn && next == .lineFeed
    else
      next.attaches || last == .prepend || last.sharesSyllable next ||
        next == .pictograph && awaitsPictograph before ||
        next == .consonant && awaitsConsonant before ||
        next == .regional && awaitsRegional before

/-- The clusters of a text that stands behind `before`, when a cluster begins with the text. -/
def clustersAfter (before : List ClusterClass) : List Char → List (List Char)
  | [] => []
  | c :: cs =>
    let before := ClusterClass.ofChar c :: before
    match cs.head?, clustersAfter before cs with
    | some d, cluster :: clusters =>
      if continues before (.ofChar d) then (c :: cluster) :: clusters
      else [c] :: cluster :: clusters
    | _, clusters => [c] :: clusters

def clusters (cs : List Char) : List (List Char) := clustersAfter [] cs

theorem flatten_clustersAfter (before : List ClusterClass) (cs : List Char) :
    (clustersAfter before cs).flatten = cs := by
  induction cs generalizing before with
  | nil => rfl
  | cons c cs ih =>
    have ihTail := ih (ClusterClass.ofChar c :: before)
    simp only [clustersAfter]
    split
    · next hClusters =>
      rw [hClusters] at ihTail
      split <;> simpa using ihTail
    · simpa using ihTail

@[simp] theorem flatten_clusters (cs : List Char) : (clusters cs).flatten = cs :=
  flatten_clustersAfter [] cs

end PostLisp.Text
