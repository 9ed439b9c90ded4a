/-
# Places in a concrete tree

A node of a concrete tree does not know what it lies in.  A `Place` is a node
together with all that lies above it, and `Concrete.places` lists the places of
a tree in reading order.

With the number of its place as its row a node says which one it is
(`Concrete.numbered`).  Lowering carries rows to lines, so on a numbered tree
every node of the result tells the place that it was lowered from.  Nothing is
lost by that, the rows can be put back for the numbers
(`mapRow_rowAt_numbered`).

The root has nothing above it, and a place in a list of trees is taken below whatever
stands above the list.  Two places may have equal nodes and equal nodes above them, if
a tree repeats itself; the number tells them apart.
-/
import PropertyHarvest.Idiom
import PropertyHarvest.Proofs.Concrete.Rows

namespace PropertyHarvest

/-- A node of a concrete tree and the nodes above it, nearest first. -/
structure Place where
  node : Concrete
  above : List Concrete

namespace Place

def child (p : Place) (x : Concrete) : Place :=
  ⟨x, p.node :: p.above⟩

def row (p : Place) : Nat :=
  p.node.label.row

def mapRow (g : Nat → Nat) (p : Place) : Place :=
  ⟨p.node.mapRow g, p.above.map (Concrete.mapRow g)⟩

end Place

namespace Concrete

mutual

def placesBelow (above : List Concrete) : Concrete → List Place
  | .node l cs => ⟨.node l cs, above⟩ :: placesIn (.node l cs :: above) cs

def placesIn (above : List Concrete) : List Concrete → List Place
  | [] => []
  | c :: cs => placesBelow above c ++ placesIn above cs

end

/-- The places of the tree in reading order. -/
def places (c : Concrete) : List Place :=
  c.placesBelow []

theorem mem_placesIn_iff {above cs : List Concrete} {p : Place} :
    p ∈ placesIn above cs ↔ ∃ c ∈ cs, p ∈ c.placesBelow above := by
  induction cs with
  | nil => simp [placesIn]
  | cons c cs ih => simp [placesIn, ih]

theorem child_mem_placesBelow {c : Concrete} {above : List Concrete} {p : Place}
    (hp : p ∈ c.placesBelow above) {x : Concrete} (hx : x ∈ p.node.children) :
    p.child x ∈ c.placesBelow above := by
  induction c using induction_size generalizing above with
  | step c ih =>
      obtain ⟨l, cs⟩ := c
      rw [placesBelow] at hp ⊢
      refine List.mem_cons_of_mem _ ?_
      rcases List.mem_cons.mp hp with rfl | hp
      · refine mem_placesIn_iff.mpr ⟨x, hx, ?_⟩
        obtain ⟨l', cs'⟩ := x
        rw [placesBelow]
        exact List.mem_cons_self
      · obtain ⟨y, hy, hpy⟩ := mem_placesIn_iff.mp hp
        exact mem_placesIn_iff.mpr ⟨y, hy, ih y (size_lt_of_mem hy) hpy⟩

theorem child_mem_places {root : Concrete} {p : Place} (hp : p ∈ root.places)
    {x : Concrete} (hx : x ∈ p.node.children) : p.child x ∈ root.places :=
  child_mem_placesBelow hp hx

/-! ## Numbered trees -/

mutual

/-- The tree with the places numbered from `i` on, in the place of rows. -/
def numberedFrom (i : Nat) : Concrete → Concrete
  | .node l cs => .node { l with row := i } (numberedIn (i + 1) cs)

def numberedIn (i : Nat) : List Concrete → List Concrete
  | [] => []
  | c :: cs => numberedFrom i c :: numberedIn (i + c.size) cs

end

/-- The tree with the number of each place as its row. -/
def numbered (c : Concrete) : Concrete :=
  c.numberedFrom 0

mutual

theorem map_row_placesBelow (i : Nat) (above : List Concrete) : (c : Concrete) →
    ((c.numberedFrom i).placesBelow above).map Place.row = List.range' i c.size
  | .node l cs => by
      rw [numberedFrom, placesBelow, List.map_cons, map_row_placesIn (i + 1) _ cs, size,
        List.range'_succ]
      rfl

theorem map_row_placesIn (i : Nat) (above : List Concrete) : (cs : List Concrete) →
    (placesIn above (numberedIn i cs)).map Place.row = List.range' i (sizes cs)
  | [] => rfl
  | c :: cs => by
      rw [numberedIn, placesIn, List.map_append, map_row_placesBelow i above c,
        map_row_placesIn (i + c.size) above cs, sizes, List.range'_append_1]

end

theorem places_getElem?_row {c : Concrete} {q : Place} (hq : q ∈ c.numbered.places) :
    c.numbered.places[q.row]? = some q := by
  obtain ⟨k, hk, hget⟩ := List.getElem_of_mem hq
  have hrow := map_row_placesBelow 0 [] c
  have hget? : c.numbered.places[k]? = some q := List.getElem?_eq_some_iff.mpr ⟨hk, hget⟩
  have hkrow : (c.numbered.places.map Place.row)[k]? = some q.row := by
    rw [List.getElem?_map, hget?]
    rfl
  change c.numbered.places.map Place.row = _ at hrow
  rw [hrow] at hkrow
  obtain ⟨hlt, he⟩ := List.getElem?_eq_some_iff.mp hkrow
  rw [List.getElem_range', Nat.one_mul, Nat.zero_add] at he
  rw [← he]
  exact hget?

/-! ## Back from the numbers to the rows -/

mutual

theorem length_placesBelow (above : List Concrete) : (c : Concrete) →
    (c.placesBelow above).length = c.size
  | .node l cs => by
      rw [placesBelow, List.length_cons, length_placesIn _ cs, size]

theorem length_placesIn (above : List Concrete) : (cs : List Concrete) →
    (placesIn above cs).length = sizes cs
  | [] => rfl
  | c :: cs => by
      rw [placesIn, List.length_append, length_placesBelow above c, length_placesIn above cs, sizes]

end

mutual

/-- With the rows of the places for their numbers, numbering is undone. -/
theorem mapRow_numberedFrom {g : Nat → Nat} {i : Nat} {above : List Concrete} : {c : Concrete} →
    (List.range' i c.size).map g = (c.placesBelow above).map Place.row →
      (c.numberedFrom i).mapRow g = c
  | .node l cs, h => by
      rw [size, List.range'_succ, List.map_cons, placesBelow, List.map_cons] at h
      obtain ⟨hrow, hcs⟩ := List.cons.inj h
      rw [numberedFrom, mapRow, mapRowIn_numberedIn hcs]
      show Concrete.node { l with row := g i } cs = _
      rw [hrow]
      rfl

theorem mapRowIn_numberedIn {g : Nat → Nat} {i : Nat} {above : List Concrete} :
    {cs : List Concrete} →
    (List.range' i (sizes cs)).map g = (placesIn above cs).map Place.row →
      mapRowIn g (numberedIn i cs) = cs
  | [], _ => rfl
  | c :: cs, h => by
      rw [sizes, ← List.range'_append_1, List.map_append, placesIn, List.map_append] at h
      obtain ⟨hc, hcs⟩ := List.append_inj h (by
        rw [List.length_map, List.length_map, List.length_range', length_placesBelow])
      rw [numberedIn, mapRowIn, mapRow_numberedFrom hc, mapRowIn_numberedIn hcs]

end

/-- The row of the place of this number. -/
def rowAt (c : Concrete) (n : Nat) : Nat :=
  (c.places[n]?.map Place.row).getD 0

theorem mapRow_rowAt_numbered (c : Concrete) : c.numbered.mapRow c.rowAt = c := by
  have hrows : (List.range' 0 c.size).map c.rowAt = c.places.map Place.row := by
    refine List.ext_getElem ?_ fun n hn hn' => ?_
    · rw [List.length_map, List.length_map, List.length_range', places, length_placesBelow]
    · rw [List.length_map] at hn'
      rw [List.getElem_map, List.getElem_map, List.getElem_range', Nat.one_mul, Nat.zero_add,
        rowAt, List.getElem?_eq_getElem hn']
      rfl
  exact mapRow_numberedFrom hrows

mutual

theorem placesBelow_mapRow (g : Nat → Nat) (above : List Concrete) : (c : Concrete) →
    (c.mapRow g).placesBelow (above.map (mapRow g)) = (c.placesBelow above).map (Place.mapRow g)
  | .node l cs => by
      have hcs := placesIn_mapRow g (.node l cs :: above) cs
      rw [placesBelow, List.map_cons, ← hcs]
      rfl

theorem placesIn_mapRow (g : Nat → Nat) (above : List Concrete) : (cs : List Concrete) →
    placesIn (above.map (mapRow g)) (mapRowIn g cs) = (placesIn above cs).map (Place.mapRow g)
  | [] => rfl
  | c :: cs => by
      rw [mapRowIn, placesIn, placesIn, placesBelow_mapRow g above c, placesIn_mapRow g above cs,
        List.map_append]

end

theorem places_mapRow (g : Nat → Nat) (c : Concrete) :
    (c.mapRow g).places = c.places.map (Place.mapRow g) :=
  placesBelow_mapRow g [] c

/-- A place of a numbered tree tells the place that it numbers. -/
theorem places_getElem?_of_numbered {c : Concrete} {q : Place} (hq : q ∈ c.numbered.places) :
    c.places[q.row]? = some (q.mapRow c.rowAt) := by
  have hplaces : c.places = c.numbered.places.map (Place.mapRow c.rowAt) := by
    rw [← places_mapRow, mapRow_rowAt_numbered]
  rw [hplaces, List.getElem?_map, places_getElem?_row hq]
  rfl

end Concrete

end PropertyHarvest
