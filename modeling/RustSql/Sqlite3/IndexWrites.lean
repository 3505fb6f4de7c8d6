import RustSql.Base.Runs
import RustSql.Common.Value
import RustSql.Sqlite3.PageWrites

/-!
# The index trees that are written

An index that fits on one leaf page is written as that page. A larger one gets
interior pages whose cells repeat the largest keys of the pages below, so the tree
holds more entries than the index has.
-/

namespace RustSql.Sqlite3

/-! ## How many entries a written tree holds -/

section Counts

variable {pager : Pager} {pages : ℕ → Option Bytes} {pageNo : ℕ} {page : Bytes}

/-- A file that holds more pages holds these. -/
theorem Holds.mono {s t : PageFile} (hst : Extends s t) (h : Holds pager t.pages) :
    Holds pager s.pages :=
  ⟨h.size,h.reserved,fun n page hpage => h.readPage n page (hst.keeps n page hpage)⟩

/-- A tree whose root is a written leaf holds the cells of that leaf. -/
theorem LeafPage.tree {cells : List IndexLeafCellData} {height : ℕ} {payloads : List Bytes}
    (hpager : Holds pager pages) (hpageNo : 2 ≤ pageNo) (hpage : pages pageNo=some page)
    (hleaf : LeafPage pages cells page)
    (htree : treeEntries true pager height pageNo=.ok payloads) :
    payloads=cells.map IndexLeafCellData.payload := by
  have hread := hpager.readPage pageNo page hpage
  have hfirst : decide (pageNo=1)=false := decide_eq_false (by omega)
  cases height with
  | zero =>
    obtain ⟨page',hread',hpayloads⟩ := treeEntries_zero htree
    obtain rfl := Except.ok.inj (hread.symm.trans hread')
    rw [hfirst,hleaf.payloads hpager] at hpayloads
    exact (Except.ok.inj hpayloads).symm
  | succ height =>
    obtain ⟨page',cells',rightmost,hread',hcells,-⟩ := treeEntries_succ htree
    obtain rfl := Except.ok.inj (hread.symm.trans hread')
    rw [hfirst] at hcells
    obtain ⟨header,_,hheader,hinterior,-⟩ := interiorCells_ok hcells
    obtain ⟨_,⟨-,header',_,hheader',hleafType,-⟩,-⟩ := hleaf
    obtain rfl := Except.ok.inj (hheader.symm.trans hheader')
    rw [hinterior] at hleafType
    cases hleafType

/-- Every tree read at a page has at least so many entries. -/
def AtLeast (pages : ℕ → Option Bytes) (pageNo count : ℕ) : Prop :=
  ∀ pager, Holds pager pages → ∀ height payloads,
    treeEntries true pager height pageNo=.ok payloads → count ≤ payloads.length

/-- A tree of so many entries keeps them. -/
theorem AtLeast.mono {s t : PageFile} {count : ℕ} (hst : Extends s t)
    (h : AtLeast s.pages pageNo count) : AtLeast t.pages pageNo count :=
  fun pager hpager => h pager (hpager.mono hst)

/-- The pages of a list have at least so many entries together. -/
def Covers (pages : ℕ → Option Bytes) : List IndexChildPage → ℕ → Prop
  | [], count => count=0
  | child :: children, count => ∃ here rest, AtLeast pages child.pageNo here ∧
    Covers pages children rest ∧ count=here+rest

/-- So do children. -/
theorem Covers.mono {s t : PageFile} (hst : Extends s t) {children : List IndexChildPage}
    {count : ℕ} (h : Covers s.pages children count) : Covers t.pages children count := by
  induction children generalizing count with
  | nil => exact h
  | cons child children ih =>
    obtain ⟨here,rest,hhere,hrest,hcount⟩ := h
    exact ⟨here,rest,hhere.mono hst,ih hrest,hcount⟩

/-- Children in a row. -/
theorem Covers.append {children children' : List IndexChildPage} {count : ℕ}
    (h : Covers pages (children++children') count) :
    ∃ first second, Covers pages children first ∧ Covers pages children' second ∧
      count=first+second := by
  induction children generalizing count with
  | nil => exact ⟨0,count,rfl,h,(Nat.zero_add count).symm⟩
  | cons child children ih =>
    obtain ⟨here,rest,hhere,hrest,hcount⟩ := h
    obtain ⟨first,second,hfirst,hsecond,hsum⟩ := ih hrest
    exact ⟨here+first,second,⟨here,first,hhere,hfirst,rfl⟩,hsecond,by omega⟩

/-- A child page that an interior cell can point to. -/
def ChildBounds (child : IndexChildPage) : Prop := 2 ≤ child.pageNo ∧ child.pageNo < 2^32

/-- An interior page has the entries of its children and one for each cell. -/
theorem InteriorPage.atLeast {init : List IndexChildPage} {last : IndexChildPage} {count : ℕ}
    (hpageNo : 2 ≤ pageNo) (hpage : pages pageNo=some page)
    (hinterior : InteriorPage init last.pageNo page) (hinit : init≠[])
    (hbounds : ∀ child∈init, ChildBounds child) (hcovers : Covers pages (init++[last]) count) :
    AtLeast pages pageNo (count+1) := by
  intro pager hpager height payloads htree
  have hread := hpager.readPage pageNo page hpage
  have hfirst : decide (pageNo=1)=false := decide_eq_false (by omega)
  cases height with
  | zero =>
    obtain ⟨page',hread',hpayloads⟩ := treeEntries_zero htree
    obtain rfl := Except.ok.inj (hread.symm.trans hread')
    rw [hfirst] at hpayloads
    obtain ⟨header,_,hheader,hleafType,-⟩ := leafPayloads_ok hpayloads
    obtain ⟨_,⟨-,header',_,hheader',htype,-⟩,-⟩ := hinterior
    obtain rfl := Except.ok.inj (hheader.symm.trans hheader')
    rw [htype] at hleafType
    cases hleafType
  | succ height =>
    obtain ⟨page',cells,rightmost,hread',hcells,hjoin⟩ := treeEntries_succ htree
    obtain rfl := Except.ok.inj (hread.symm.trans hread')
    rw [hfirst] at hcells
    obtain ⟨hchildren,rfl⟩ := hinterior.children (fun child hchild => (hbounds child hchild).2) hcells
    have hcount : count+init.length ≤ payloads.length := by
      clear hcells hinterior hinit hbounds htree
      induction cells generalizing init count payloads with
      | nil =>
        obtain rfl : init=[] := by
          rw [List.map_nil] at hchildren
          exact List.map_eq_nil_iff.mp hchildren.symm
        obtain ⟨here,rest,hhere,hrest,rfl⟩ := hcovers
        have hle := hhere pager hpager height payloads hjoin
        change rest=0 at hrest
        rw [List.length_nil]
        omega
      | cons cell cells ih =>
        obtain ⟨child,payload⟩ := cell
        cases init with
        | nil => cases hchildren
        | cons first init =>
          rw [List.map_cons,List.map_cons,List.cons.injEq] at hchildren
          obtain ⟨hchild,hchildren⟩ := hchildren
          obtain ⟨here,rest,hhere,hrest,rfl⟩ := hcovers
          obtain ⟨entries,others,hentries,hothers,rfl⟩ := joinChildren_cons hjoin
          have hle := hhere pager hpager height entries (hchild▸hentries)
          have hih := ih hrest others hchildren hothers
          simp only [List.length_append,List.length_cons,if_true,List.length_nil]
          omega
    have hpos : 0 < init.length := List.length_pos_of_ne_nil hinit
    omega

end Counts

/-! ## Pagination -/

section Pagination

variable {α : Type} {cellLen : α → Except DbError ℕ} {len : α → ℕ}

variable {groups groups' : List (List α)} {current children : List α}

/-- Filling leaf pages keeps the cells in order, and needs one page exactly when all
fit on the page that is being filled. -/
theorem paginateLeafFrom_ok {headerSize size : ℕ} {cells current : List α}
    (hlen : ∀ cell∈cells, ∀ n, cellLen cell=.ok n → n=len cell)
    (hsize : size ≤ pageSize)
    (h : paginateLeafFrom headerSize cellLen cells current size=.ok groups) :
    groups.flatten=current++cells ∧ groups≠[] ∧
      (groups.length=1 ↔ size+(cells.map fun cell => 2+len cell).sum ≤ pageSize) := by
  induction cells generalizing current size groups with
  | nil =>
    cases h
    simp only [List.flatten_cons,List.flatten_nil,List.append_nil,ne_eq,List.cons_ne_nil,
      not_false_eq_true,List.length_singleton,List.map_nil,List.sum_nil,Nat.add_zero,hsize,
      and_self]
  | cons cell cells ih =>
    rw [paginateLeafFrom] at h
    obtain ⟨n,hn,h⟩ := except_bind_ok h
    obtain rfl := hlen cell List.mem_cons_self n hn
    have hrest : ∀ c∈cells, ∀ n, cellLen c=.ok n → n=len c :=
      fun c hc => hlen c (List.mem_cons_of_mem cell hc)
    rw [List.map_cons,List.sum_cons]
    split at h
    · rename_i hfull
      split at h
      · cases h
      · rename_i hroom
        obtain ⟨pages,hpages,h⟩ := except_bind_ok h
        cases h
        obtain ⟨hflat,hne,-⟩ := ih hrest (by omega) hpages
        refine ⟨by rw [List.flatten_cons,hflat]; rfl,List.cons_ne_nil _ _,?_⟩
        have hpos := List.length_pos_of_ne_nil hne
        rw [List.length_cons]
        omega
    · split at h
      · cases h
      · rename_i hroom
        obtain ⟨hflat,hne,hone⟩ := ih hrest (by omega) h
        refine ⟨by rw [hflat,List.append_assoc]; rfl,hne,hone.trans ?_⟩
        omega

/-- Filling interior pages keeps the children in order. -/
theorem paginateInteriorFrom_flatten {last : α} {size : ℕ}
    (h : paginateInteriorFrom cellLen children current last size=.ok groups) :
    groups.flatten=current++last :: children := by
  induction children generalizing current last size groups with
  | nil =>
    cases h
    simp only [List.flatten_cons,List.flatten_nil,List.append_nil]
  | cons child children ih =>
    rw [paginateInteriorFrom] at h
    obtain ⟨n,-,h⟩ := except_bind_ok h
    split at h
    · obtain ⟨rest,hrest,h⟩ := except_bind_ok h
      cases h
      rw [List.flatten_cons,ih hrest,List.nil_append,List.append_assoc]
      rfl
    · split at h
      · cases h
      · rw [ih h,List.append_assoc]
        rfl

/-- Rebalancing moves a child across a boundary and keeps the order. -/
theorem rebalance_flatten
    (h : rebalance cellLen groups=.ok groups') : groups'.flatten=groups.flatten := by
  induction groups generalizing groups' with
  | nil =>
    cases h
    rfl
  | cons group groups ih =>
    unfold rebalance at h
    split at h
    · rename_i previous lone heq
      rw [heq]
      split at h
      · cases h
      · rename_i moved hmoved
        split at h
        · cases h
        · obtain ⟨size,-,h⟩ := except_bind_ok h
          split at h
          · cases h
          · cases h
            have hprevious := List.dropLast_append_getLast? moved hmoved
            simp only [List.flatten_cons,List.flatten_nil,List.append_nil]
            rw [←List.singleton_append,←List.append_assoc,hprevious]
    · rename_i heq
      cases heq
    · rename_i hnot heq
      cases heq
      obtain ⟨rest,hrest,h⟩ := except_bind_ok h
      cases h
      rw [List.flatten_cons,List.flatten_cons,ih hrest]

/-- The groups of a level are its children, in order. -/
theorem paginateInteriorChildren_flatten
    (h : paginateInteriorChildren children cellLen=.ok groups) : groups.flatten=children := by
  unfold paginateInteriorChildren at h
  split at h
  · cases h
  · cases h
    rfl
  · obtain ⟨from',hfrom,h⟩ := except_bind_ok h
    rw [rebalance_flatten h,paginateInteriorFrom_flatten hfrom]
    rfl

/-- Filling interior pages puts at least two children on every page but the last. -/
theorem paginateInteriorFrom_pairs {last : α} {size : ℕ}
    (h : paginateInteriorFrom cellLen children current last size=.ok groups) :
    groups≠[] ∧ (∀ group∈groups, group≠[]) ∧ ∀ group∈groups.dropLast, 2 ≤ group.length := by
  induction children generalizing current last size groups with
  | nil =>
    cases h
    refine ⟨List.cons_ne_nil _ _,fun group hgroup => ?_,fun group hgroup => ?_⟩
    · rw [List.mem_singleton.mp hgroup]
      exact List.append_ne_nil_of_right_ne_nil _ (List.cons_ne_nil _ _)
    · simp only [List.dropLast_singleton,List.not_mem_nil] at hgroup
  | cons child children ih =>
    rw [paginateInteriorFrom] at h
    obtain ⟨n,-,h⟩ := except_bind_ok h
    split at h
    · rename_i hfull
      obtain ⟨rest,hrest,h⟩ := except_bind_ok h
      cases h
      obtain ⟨hne,hfilled,hpairs⟩ := ih hrest
      have hpos := List.length_pos_of_ne_nil hfull.1
      refine ⟨List.cons_ne_nil _ _,fun group hgroup => ?_,fun group hgroup => ?_⟩
      · cases List.mem_cons.mp hgroup with
        | inl heq =>
          rw [heq]
          exact List.append_ne_nil_of_right_ne_nil _ (List.cons_ne_nil _ _)
        | inr hmem => exact hfilled group hmem
      · rw [List.dropLast_cons_of_ne_nil hne] at hgroup
        cases List.mem_cons.mp hgroup with
        | inl heq =>
          rw [heq,List.length_append,List.length_singleton]
          omega
        | inr hmem => exact hpairs group hmem
    · split at h
      · cases h
      · exact ih h

/-- After rebalancing every page has at least two children. -/
theorem rebalance_pairs (h : rebalance cellLen groups=.ok groups')
    (hfilled : ∀ group∈groups, group≠[]) (hpairs : ∀ group∈groups.dropLast, 2 ≤ group.length)
    (hone : 2 ≤ groups.flatten.length) : ∀ group∈groups', 2 ≤ group.length := by
  induction groups generalizing groups' with
  | nil => simp only [List.flatten_nil,List.length_nil] at hone; omega
  | cons first groups ih =>
    unfold rebalance at h
    split at h
    · rename_i previous lone heq
      split at h
      · cases h
      · split at h
        · cases h
        · rename_i hthree
          obtain ⟨size,-,h⟩ := except_bind_ok h
          split at h
          · cases h
          · cases h
            intro group hgroup
            cases List.mem_cons.mp hgroup with
            | inl hprevious =>
              rw [hprevious,List.length_dropLast]
              omega
            | inr hlast =>
              rw [List.mem_singleton.mp hlast]
              exact le_rfl
    · rename_i heq
      cases heq
    · rename_i hnot heq
      cases heq
      obtain ⟨rest,hrest,h⟩ := except_bind_ok h
      cases h
      intro group hgroup
      cases hgroups : groups with
      | nil =>
        rw [hgroups] at hrest hone
        cases hrest
        rw [List.mem_singleton.mp hgroup]
        simpa only [List.flatten_cons,List.flatten_nil,List.append_nil] using hone
      | cons second others =>
        have hne : groups≠[] := by
          rw [hgroups]
          exact List.cons_ne_nil _ _
        rw [List.dropLast_cons_of_ne_nil hne] at hpairs
        have htwo : 2 ≤ groups.flatten.length := by
          cases others with
          | nil =>
            -- the only other group has at least two children, or it would be rebalanced
            by_contra hshort
            have hsecond : second≠[] := hfilled second (by rw [hgroups]; simp)
            rw [hgroups,List.flatten_cons,List.flatten_nil,List.append_nil] at hshort
            have hpos := List.length_pos_of_ne_nil hsecond
            obtain ⟨lone,hlone⟩ := List.length_eq_one_iff.mp (by omega : second.length=1)
            exact hnot lone (by rw [hgroups,hlone])
          | cons third others =>
            have hsecond := hpairs second (List.mem_cons_of_mem _ (by rw [hgroups]; simp))
            rw [hgroups,List.flatten_cons,List.length_append]
            omega
        cases List.mem_cons.mp hgroup with
        | inl heq =>
          rw [heq]
          exact hpairs first List.mem_cons_self
        | inr hmem =>
          exact ih hrest (fun g hg => hfilled g (List.mem_cons_of_mem _ hg))
            (fun g hg => hpairs g (List.mem_cons_of_mem _ hg)) htwo group hmem

/-- Every group of interior children has two of them. -/
theorem paginateInteriorChildren_pairs
    (htwo : 2 ≤ children.length) (h : paginateInteriorChildren children cellLen=.ok groups) :
    ∀ group∈groups, 2 ≤ group.length := by
  unfold paginateInteriorChildren at h
  split at h
  · cases h
  · simp only [List.length_singleton] at htwo
    omega
  · obtain ⟨from',hfrom,h⟩ := except_bind_ok h
    obtain ⟨-,hfilled,hpairs⟩ := paginateInteriorFrom_pairs hfrom
    refine rebalance_pairs h hfilled hpairs ?_
    rw [paginateInteriorFrom_flatten hfrom]
    exact htwo

/-- A level has at most half the pages of the one below. -/
theorem paginateInteriorChildren_half
    (hlen : 2 ≤ children.length) (h : paginateInteriorChildren children cellLen=.ok groups) :
    2*groups.length ≤ children.length := by
  have hflat := paginateInteriorChildren_flatten h
  have hpairs := paginateInteriorChildren_pairs hlen h
  rw [←hflat,List.length_flatten]
  clear hflat h hlen
  induction groups with
  | nil => exact le_rfl
  | cons group groups ih =>
    have hgroup := hpairs group List.mem_cons_self
    have hrest := ih fun g hg => hpairs g (List.mem_cons_of_mem group hg)
    rw [List.map_cons,List.sum_cons,List.length_cons]
    omega

end Pagination

/-! ## Levels -/

section Levels

variable {s : PageFile} {message : String} {rootPage : ℕ}

/-- A page over a group of children has their entries and at least one more. -/
theorem buildParent_guarantee {allocate : Eff PageFile ℕ} {B : ℕ → Prop} (hs : 2 ≤ s.nextPageNo)
    (hallocate : Guarantee Extends s allocate fun n t => 2 ≤ n ∧ n < t.nextPageNo ∧ B n)
    {group : List IndexChildPage} (hbounds : ∀ child∈group, ChildBounds child) :
    Guarantee Extends s (buildParent message allocate group) fun parent t =>
      2 ≤ parent.pageNo ∧ B parent.pageNo ∧
        ∀ count, Covers s.pages group count → AtLeast t.pages parent.pageNo (count+1) := by
  refine .bind hallocate fun pageNo t hst hpageNo => .bind_lift fun maxKey _ => ?_
  refine .bind (buildInteriorIndexPage_guarantee (hs.trans hst.next) group)
    fun page u htu hpage => ?_
  obtain ⟨hlen,init,last,rfl,hinit,hinterior⟩ := hpage
  refine .bind (insertPage_guarantee hpageNo.1 (hpageNo.2.1.trans_le htu.next) hlen)
    fun _ v huv hinserted => ?_
  refine .ret ⟨hpageNo.1,hpageNo.2.2,fun count hcovers => ?_⟩
  have hlast := hbounds last (List.mem_append_right _ List.mem_cons_self)
  exact (hinterior hlast.2).atLeast hpageNo.1 hinserted hinit
    (fun child hchild => hbounds child (List.mem_append_left _ hchild))
    (((hcovers.mono hst).mono htu).mono huv)

/-- The pages of a level together have the entries of the level below. -/
theorem covers_parents {pages pages' : ℕ → Option Bytes} {groups : List (List IndexChildPage)}
    {parents : List IndexChildPage} {count : ℕ} (hcovers : Covers pages groups.flatten count)
    (h : List.Forall₂ (fun group (parent : IndexChildPage) =>
      ∀ count, Covers pages group count → AtLeast pages' parent.pageNo (count+1)) groups parents) :
    Covers pages' parents (count+groups.length) := by
  induction h generalizing count with
  | nil => exact hcovers
  | @cons group parent groups parents hparent _ ih =>
    rw [List.flatten_cons] at hcovers
    obtain ⟨first,second,hfirst,hsecond,rfl⟩ := hcovers.append
    refine ⟨first+1,second+groups.length,hparent first hfirst,ih hsecond,?_⟩
    rw [List.length_cons]
    omega

/-- What holds of a level is handed to the level over it, and from the last one to the root. -/
theorem buildLevels_rule {P : PageFile → List IndexChildPage → Prop} {Q : PageFile → Prop}
    (hlevel : ∀ s groups, P s groups.flatten →
      Guarantee Extends s (Eff.mapEach groups (buildParent message allocatePage))
        fun parents t => groups.length=parents.length ∧ P t parents)
    (hlast : ∀ s group, P s group →
      Guarantee Extends s (buildParent message (pure rootPage) group) fun _ t => Q t)
    {fuel : ℕ} {children : List IndexChildPage} (hlen : 2 ≤ children.length)
    (h : P s children) :
    Guarantee Extends s (buildLevels message rootPage fuel children) fun _ t => Q t := by
  induction fuel generalizing s children with
  | zero => exact .hang
  | succ fuel ih =>
    rw [buildLevels,if_neg (by omega)]
    refine .bind_lift fun groups hgroups => ?_
    have hflat := paginateInteriorChildren_flatten hgroups
    rw [←hflat] at h hlen
    simp only
    by_cases hone : groups.length=1
    · -- the last level: its only page is the root
      rw [if_pos hone]
      obtain ⟨group,rfl⟩ := List.length_eq_one_iff.mp hone
      rw [List.flatten_singleton] at h
      have hroot : Guarantee Extends s (Eff.mapEach [group] (buildParent message (pure rootPage)))
          fun parents t => parents.length=1 ∧ Q t :=
        (hlast s group h).bind fun parent t _ ht => .ret ⟨rfl,ht⟩
      refine hroot.bind fun parents t _ ht => ?_
      cases fuel with
      | zero => exact .hang
      | succ fuel =>
        rw [buildLevels,if_pos ht.1.le]
        exact .ret ht.2
    · rw [if_neg hone]
      refine .bind (hlevel s groups h) fun parents t _ ht => ?_
      have hpos : 0 < groups.length := by
        refine List.length_pos_of_ne_nil fun hnil => ?_
        rw [hnil,List.flatten_nil,List.length_nil] at hlen
        omega
      exact ih (by omega) ht.2

/-- The tree over at least two pages has their entries and more. -/
theorem buildLevels_guarantee (hroot : 2 ≤ rootPage) {fuel : ℕ} {children : List IndexChildPage}
    {count : ℕ} (hs : rootPage < s.nextPageNo) (hlen : 2 ≤ children.length)
    (hbounds : ∀ child∈children, ChildBounds child) (hcovers : Covers s.pages children count) :
    Guarantee Extends s (buildLevels message rootPage fuel children) fun _ t =>
      AtLeast t.pages rootPage (count+1) := by
  refine buildLevels_rule (P := fun s children => rootPage < s.nextPageNo ∧
    (∀ child∈children, ChildBounds child) ∧
      ∃ n, count ≤ n ∧ Covers s.pages children n) ?_ ?_ hlen ⟨hs,hbounds,count,le_rfl,hcovers⟩
  · rintro s groups ⟨hs,hbounds,n,hcount,hcovers⟩
    have hnext : 2 ≤ s.nextPageNo := hroot.trans hs.le
    have hgroupBounds : ∀ group∈groups, ∀ child∈group, ChildBounds child := fun group hgroup child
      hchild => hbounds child (List.mem_flatten.mpr ⟨group,hgroup,hchild⟩)
    refine (mapEach_guarantee (P := fun group parent t => ChildBounds parent ∧
      ∀ count, Covers s.pages group count → AtLeast t.pages parent.pageNo (count+1))
      (fun _ _ _ _ htu h => ⟨h.1,fun n hn => (h.2 n hn).mono htu⟩)
      fun group hgroup t hst => ?_).mono fun parents t hst hparents => ?_
    · have hstart := hnext.trans hst.next
      refine (buildParent_guarantee (B := fun n => n < 2^32) hstart
        ((allocatePage_guarantee t).mono fun n _ _ hn => ⟨hstart.trans hn.1,hn.2.2,hn.2.1⟩)
        (hgroupBounds group hgroup)).mono fun parent u htu hparent => ?_
      exact ⟨⟨hparent.1,hparent.2.1⟩,fun n hn => hparent.2.2 n (hn.mono hst)⟩
    · refine ⟨hparents.length_eq,hs.trans_le hst.next,fun parent hparent => ?_,
        n+groups.length,by omega,covers_parents hcovers (hparents.imp fun _ _ h => h.2)⟩
      obtain ⟨_,-,hbound,-⟩ := forall₂_mem_left hparents.flip hparent
      exact hbound
  · rintro s group ⟨hs,hbounds,n,hcount,hcovers⟩
    refine (buildParent_guarantee (B := fun n => n=rootPage) (hroot.trans hs.le)
      (.ret ⟨hroot,hs,rfl⟩) hbounds).mono fun parent t hst hparent => ?_
    have hall := hparent.2.2 n hcovers
    rw [hparent.2.1] at hall
    intro pager hpager height payloads htree
    have hle := hall pager hpager height payloads htree
    omega

end Levels

/-! ## The tree -/

/-- The length of an entry's cell on a leaf page. -/
def indexCellLen (cell : IndexLeafCellData) : ℕ :=
  renderedLen (encodeVarint cell.payload.length) cell.payload true

/-- All entries fit on one leaf page: its header, a pointer for each cell and the
cells. -/
def FitsOneLeaf (cells : List IndexLeafCellData) : Prop :=
  8+(cells.map fun cell => 2+indexCellLen cell).sum ≤ pageSize

instance instDecidableFitsOneLeaf (cells : List IndexLeafCellData) :
    Decidable (FitsOneLeaf cells) :=
  inferInstanceAs (Decidable (_ ≤ _))

/-- The length of a cell. -/
theorem leafIndexCellLen_ok {cell : IndexLeafCellData} {n : ℕ} (h : leafIndexCellLen cell=.ok n) :
    n=indexCellLen cell := by
  obtain ⟨head,hhead,h⟩ := except_bind_ok h
  obtain ⟨-,rfl⟩ := payloadLenVarint_ok hhead
  cases h
  rfl

/-- The leaf pages hold the sorted cells, in order; there is one exactly when all
entries fit on it. -/
theorem paginateLeafCells_ok {cells : List IndexLeafCellData}
    {groups : List (List IndexLeafCellData)}
    (h : paginateLeafCells (sortCells cells) 8 leafIndexCellLen=.ok groups) :
    groups.flatten=sortCells cells ∧ groups≠[] ∧ (groups.length=1 ↔ FitsOneLeaf cells) := by
  have hperm : (sortCells cells).Perm cells := List.perm_insertionSort cellLe cells
  have hsum : ((sortCells cells).map fun cell => 2+indexCellLen cell).sum=
      (cells.map fun cell => 2+indexCellLen cell).sum := (hperm.map _).sum_nat
  unfold paginateLeafCells at h
  split at h
  · rename_i hempty
    have hnil : sortCells cells=[] := List.isEmpty_iff.mp hempty
    cases h
    rw [hnil] at hsum ⊢
    refine ⟨rfl,List.cons_ne_nil _ _,iff_of_true rfl ?_⟩
    rw [FitsOneLeaf,←hsum]
    decide
  · obtain ⟨hflat,hne,hone⟩ := paginateLeafFrom_ok (fun cell _ n hn => leafIndexCellLen_ok hn)
      (by decide) h
    rw [hsum] at hone
    exact ⟨hflat,hne,hone⟩

/-- A leaf page is a child with as many entries as cells. -/
theorem buildLeaf_guarantee {s : PageFile} {message : String} (hs : 2 ≤ s.nextPageNo)
    (group : List IndexLeafCellData) :
    Guarantee Extends s (buildLeaf message group) fun child t =>
      ChildBounds child ∧ AtLeast t.pages child.pageNo group.length := by
  refine .bind (allocatePage_guarantee s) fun pageNo t hst hpageNo => .bind_lift fun maxKey _ => ?_
  refine .bind (buildLeafIndexPageCells_guarantee (hs.trans hst.next) group) fun page u htu hleaf => ?_
  have hbound : 2 ≤ pageNo := hs.trans hpageNo.1
  refine .bind (insertPage_guarantee hbound (hpageNo.2.2.trans_le htu.next) hleaf.length)
    fun _ v huv hinserted => ?_
  refine .ret ⟨⟨hbound,hpageNo.2.1⟩,fun pager hpager height payloads htree => ?_⟩
  obtain ⟨rendered,hpage,hrendered⟩ := hleaf
  have hleaf : LeafPage v.pages group page :=
    ⟨rendered,hpage,hrendered.imp fun _ _ h => ⟨h.1,h.2.mono huv⟩⟩
  rw [hleaf.tree hpager hbound hinserted htree,List.length_map]

/-- What the builder of a tree leaves behind. -/
theorem buildCellTree_guarantee {s : PageFile} {leafMessage interiorMessage : String}
    {rootPage : ℕ} (hroot : 2 ≤ rootPage) (hs : rootPage < s.nextPageNo)
    (cells : List IndexLeafCellData) :
    Guarantee Extends s (buildCellTree leafMessage interiorMessage cells rootPage) fun _ t =>
      (FitsOneLeaf cells → ∃ page, t.pages rootPage=some page ∧
        LeafPage t.pages (sortCells cells) page) ∧
      (¬FitsOneLeaf cells → AtLeast t.pages rootPage (cells.length+1)) := by
  refine .bind_lift fun groups hgroups => ?_
  obtain ⟨hflat,hne,hone⟩ := paginateLeafCells_ok hgroups
  have hperm : (sortCells cells).Perm cells := List.perm_insertionSort cellLe cells
  have hnext : 2 ≤ s.nextPageNo := hroot.trans hs.le
  by_cases hfits : FitsOneLeaf cells
  · obtain ⟨group,rfl⟩ := List.length_eq_one_iff.mp (hone.mpr hfits)
    have hgroup : group=sortCells cells := by
      rw [←hflat]
      exact (List.append_nil group).symm
    refine .bind (buildLeafIndexPageCells_guarantee hnext group) fun page t hst hleaf => ?_
    refine (insertPage_guarantee hroot (hs.trans_le hst.next) hleaf.length).mono fun _ u htu hinserted => ?_
    obtain ⟨rendered,hpage,hrendered⟩ := hleaf
    refine ⟨fun _ => ⟨page,hinserted,?_⟩,fun hnot => absurd hfits hnot⟩
    rw [←hgroup]
    exact ⟨rendered,hpage,hrendered.imp fun _ _ h => ⟨h.1,h.2.mono htu⟩⟩
  · have hmany : groups.length≠1 := fun h => hfits (hone.mp h)
    have hpos := List.length_pos_of_ne_nil hne
    have hbuild : Guarantee Extends s (do
        let children ← Eff.mapEach groups (buildLeaf leafMessage)
        buildLevels interiorMessage rootPage (children.length+1) children) fun _ t =>
          AtLeast t.pages rootPage (cells.length+1) := by
      refine .bind (mapEach_guarantee (P := fun (group : List IndexLeafCellData) (child : IndexChildPage) t =>
        ChildBounds child ∧ AtLeast t.pages child.pageNo group.length)
        (fun _ _ _ _ htu h => ⟨h.1,h.2.mono htu⟩)
        fun group _ t hst => buildLeaf_guarantee (hnext.trans hst.next) group)
        fun children t hst hchildren => ?_
      have hcovers : Covers t.pages children (groups.map List.length).sum := by
        clear hgroups hflat hne hone hmany hpos
        induction hchildren with
        | nil => rfl
        | @cons group child groups children hchild _ ih =>
          exact ⟨group.length,_,hchild.2,ih,rfl⟩
      have hbounds : ∀ child∈children, ChildBounds child := by
        intro child hchild
        obtain ⟨_,-,hbound,-⟩ := forall₂_mem_left hchildren.flip hchild
        exact hbound
      have hcount := hchildren.length_eq
      rw [←List.length_flatten,hflat,hperm.length_eq] at hcovers
      exact buildLevels_guarantee hroot (hs.trans_le hst.next) (by omega) hbounds hcovers
    have hdone := hbuild.mono fun _ t _ hleast =>
      (⟨fun h => absurd h hfits,fun _ => hleast⟩ :
        (FitsOneLeaf cells → ∃ page, t.pages rootPage=some page ∧
          LeafPage t.pages (sortCells cells) page) ∧
        (¬FitsOneLeaf cells → AtLeast t.pages rootPage (cells.length+1)))
    split
    · exact absurd rfl hmany
    · exact hdone

/-! ## Termination -/

section Termination

variable {message : String} {rootPage : ℕ}

end Termination

/-! ## Well-formed indexes -/

/-- The pages below a root are an index b-tree with the given entries: each occurs once
in the whole tree, the walk over leaves and interior cells is in the order of the keys,
and the tree holds as many records as there are entries. -/
def WellFormedIndex (pager : Pager) (rootPage : ℕ) (cells : List IndexLeafCellData) : Prop :=
  ∃ height payloads, ∃ entries : List IndexLeafCellData,
    treeEntries true pager height rootPage=.ok payloads ∧
    payloads=entries.map IndexLeafCellData.payload ∧ entries.Perm cells ∧
    entries.Pairwise cellLe ∧ payloads.length=cells.length

/-- Cells are sorted by the places of their keys. -/
theorem cellLe_iff (left right : IndexLeafCellData) :
    cellLe left right ↔ left.key.map Value.place ≤ right.key.map Value.place :=
  Value.cmp_orderedBy.lists.ne_gt left.key right.key

instance instTotalCellLe : Std.Total cellLe where
  total left right := by
    rw [cellLe_iff,cellLe_iff]
    exact le_total _ _

instance instIsTransCellLe : IsTrans IndexLeafCellData cellLe where
  trans left middle right := by
    rw [cellLe_iff,cellLe_iff,cellLe_iff]
    exact le_trans

/-- Sorted cells ascend. -/
theorem sortCells_sorted (cells : List IndexLeafCellData) : (sortCells cells).Pairwise cellLe :=
  List.pairwise_insertionSort cellLe cells

section Index

variable {expressions : IndexExpressions} {schema : Table} {index : IndexMeta}

/-- There is a cell for each row the index covers. -/
theorem indexCells_length {rows : List (RowId × Row)} {cells : List IndexLeafCellData}
    (h : indexCells expressions schema rows index=.ok cells) :
    cells.length=(rows.filter fun row =>
      rowMatchesPartialIndex expressions schema index row.2=.ok true).length := by
  obtain ⟨found,hfound,hok⟩ := except_bind_ok h
  cases hok
  have hall := mapM_eq_ok.mp hfound
  clear h hfound
  induction hall with
  | nil => rfl
  | @cons row cell rows found hcell _ ih =>
    obtain ⟨covered,hcovered,hcell⟩ := except_bind_ok hcell
    cases covered with
    | false =>
      cases hcell
      rw [List.reduceOption_cons_of_none,ih,List.filter_cons_of_neg]
      rw [hcovered]
      decide
    | true =>
      obtain ⟨values,-,hcell⟩ := except_bind_ok hcell
      obtain ⟨payload,-,hcell⟩ := except_bind_ok hcell
      cases hcell
      rw [List.reduceOption_cons_of_some,List.length_cons,ih,List.filter_cons_of_pos,
        List.length_cons]
      rw [hcovered]
      decide

/-- What is left of an index that fits one leaf, and of one that does not. -/
theorem buildIndexBtree_guarantee {s : PageFile} {rows : List (RowId × Row)} {rootPage : ℕ}
    (hroot : 2 ≤ rootPage) (hs : rootPage < s.nextPageNo) :
    Guarantee Extends s (buildIndexBtree expressions schema rows index rootPage) fun _ t =>
      ∃ cells, indexCells expressions schema rows index=.ok cells ∧
        (FitsOneLeaf cells → ∃ page, t.pages rootPage=some page ∧
          LeafPage t.pages (sortCells cells) page) ∧
        (¬FitsOneLeaf cells → AtLeast t.pages rootPage (cells.length+1)) := by
  refine .bind_lift fun cells hcells => ?_
  split
  · exact (buildCellTree_guarantee hroot hs cells).mono fun _ _ _ h => ⟨cells,hcells,h⟩
  · exact (buildCellTree_guarantee hroot hs cells).mono fun _ _ _ h => ⟨cells,hcells,h⟩

end Index

/-- The tree written for an index has an entry for each row the index covers, and is
well formed exactly when all of them fit on one leaf page. -/
theorem index_btree_well_formed_iff (expressions : IndexExpressions) {schema : Table}
    {rows : List (RowId × Row)} {index : IndexMeta} {rootPage : ℕ} {s t : PageFile}
    {cells : List IndexLeafCellData} {pager : Pager} (hroot : 2 ≤ rootPage)
    (hs : rootPage < s.nextPageNo)
    (hcells : indexCells expressions schema rows index=.ok cells)
    (hbuild : buildIndexBtree expressions schema rows index rootPage s=(.ok (),t))
    (hpager : Holds pager t.pages) :
    cells.length=(rows.filter fun row =>
      rowMatchesPartialIndex expressions schema index row.2=.ok true).length ∧
    (WellFormedIndex pager rootPage cells ↔ FitsOneLeaf cells) := by
  refine ⟨indexCells_length hcells,?_⟩
  have hdone := (@buildIndexBtree_guarantee expressions schema index s rows rootPage hroot hs).2 ()
    (by rw [hbuild])
  rw [hbuild] at hdone
  obtain ⟨cells',hcells',hone,hmany⟩ := hdone
  obtain rfl := Except.ok.inj (hcells.symm.trans hcells')
  have hperm : (sortCells cells).Perm cells := List.perm_insertionSort cellLe cells
  constructor
  · intro h
    obtain ⟨height,payloads,_,htree,-,-,-,hlength⟩ := h
    by_contra hnot
    have hle := hmany hnot pager hpager height payloads htree
    omega
  · intro hfits
    obtain ⟨page,hpage,hleaf⟩ := hone hfits
    have hfirst : decide (rootPage=1)=false := decide_eq_false (by omega)
    have htree : treeEntries true pager 0 rootPage=
        .ok ((sortCells cells).map IndexLeafCellData.payload) := by
      rw [treeEntries,hpager.readPage rootPage page hpage]
      change leafPayloads pager page _=_
      rw [hfirst]
      exact hleaf.payloads hpager
    refine ⟨0,_,sortCells cells,htree,rfl,hperm,sortCells_sorted cells,?_⟩
    rw [List.length_map,hperm.length_eq]

/-! ## Two indexes -/

/-- Indexes on plain columns need no expressions. -/
def plainColumns : IndexExpressions := ⟨fun _ _ _ => .ok true,fun _ _ _ => .ok .null⟩

/-- A table of one blob column and an index on it. -/
def blobTable : Table := ⟨"t",[⟨"a",.blob,false,false⟩],none,false⟩

def blobIndex : IndexMeta := ⟨"i",["a"],none,false,none⟩

/-- Rows of 900 bytes, numbered from two. -/
def blobRows (count : ℕ) : List (RowId × Row) :=
  (List.range count).map fun i => (i+2,[.blob (List.replicate 900 0)])

/-- The state in which the index with root page two is built. -/
def emptyFile : PageFile := ⟨3,fun _ => none⟩

/-- What is left of the index over so many rows. -/
def blobPages (count : ℕ) : PageFile :=
  (buildIndexBtree plainColumns blobTable (blobRows count) blobIndex 2 emptyFile).2

/-- The file with these pages, and an empty page in the place of the schema. -/
def blobFile (count : ℕ) : Except DbError Bytes :=
  assembleFile id (Function.update (blobPages count).pages 1 (some (List.replicate pageSize 0)))
    ((blobPages count).nextPageNo-1)

def blobCells (count : ℕ) : Except DbError (List IndexLeafCellData) :=
  indexCells plainColumns blobTable (blobRows count) blobIndex

/-- The pages of the index. -/
theorem blobPages_built {count : ℕ} (h : (buildIndexBtree plainColumns blobTable (blobRows count)
    blobIndex 2 emptyFile).1=.ok ()) :
    buildIndexBtree plainColumns blobTable (blobRows count) blobIndex 2 emptyFile=
      (.ok (),blobPages count) :=
  Eff.eq_of_fst h

/-- Rows that fill more than one leaf leave too many entries. -/
theorem blobPages_least {count : ℕ} {cells : List IndexLeafCellData}
    (h : (buildIndexBtree plainColumns blobTable (blobRows count) blobIndex 2 emptyFile).1=.ok ())
    (hcells : blobCells count=.ok cells) (hmany : ¬FitsOneLeaf cells) :
    AtLeast (blobPages count).pages 2 (cells.length+1) := by
  obtain ⟨cells',hcells',-,hleast⟩ :=
    (buildIndexBtree_guarantee (by decide) (by decide)).2 () h
  obtain rfl := Except.ok.inj (hcells.symm.trans hcells')
  exact hleast hmany

/-- The file put together from the pages of a state, behind an empty page, holds them. -/
theorem assembled_holds {t : PageFile} {file : Bytes} (hextends : Extends emptyFile t)
    (h : assembleFile id (Function.update t.pages 1 (some (List.replicate pageSize 0)))
      (t.nextPageNo-1)=.ok file) : Holds ⟨pageSize,0,file⟩ t.pages := by
  have hfresh : ∀ pageNo page, t.pages pageNo=some page →
      2 ≤ pageNo ∧ pageNo < t.nextPageNo ∧ page.length=pageSize := by
    intro pageNo page hpage
    exact (hextends.fresh pageNo page hpage).resolve_left fun hold => nomatch hold
  refine assembleFile_holds h (fun _ hlen => hlen) (fun pageNo page hpage => ?_)
    fun pageNo page hpage => ?_
  · by_cases hone : pageNo=1
    · rw [hone,Function.update_self] at hpage
      cases hpage
      exact List.length_replicate
    · rw [Function.update_of_ne hone] at hpage
      exact (hfresh pageNo page hpage).2.2
  · obtain ⟨htwo,hlt,-⟩ := hfresh pageNo page hpage
    exact ⟨(Function.update_of_ne (by omega) _ _).trans hpage,htwo,by omega⟩

/-- The file holds them. -/
theorem blobFile_holds {count : ℕ} {file : Bytes} (h : blobFile count=.ok file) :
    Holds ⟨pageSize,0,file⟩ (blobPages count).pages :=
  assembled_holds (buildIndexBtree_guarantee (by decide) (by decide)).1 h

/-- The tree of three such rows is well formed. -/
theorem index_btree_well_formed_iff_threeRows :
    ∃ cells file, blobCells 3=.ok cells ∧ blobFile 3=.ok file ∧
      (WellFormedIndex ⟨pageSize,0,file⟩ 2 cells ↔ FitsOneLeaf cells) := by
  have hcells : (blobCells 3).toOption.isSome := by decide +kernel
  have hfile : (blobFile 3).toOption.isSome := by decide +kernel
  have hbuilt : (buildIndexBtree plainColumns blobTable (blobRows 3) blobIndex 2 emptyFile).1=
      .ok () := by decide +kernel
  cases hc : blobCells 3 with
  | error e =>
    rw [hc] at hcells
    cases hcells
  | ok cells =>
    cases hf : blobFile 3 with
    | error e =>
      rw [hf] at hfile
      cases hfile
    | ok file =>
      exact ⟨cells,file,rfl,rfl,(index_btree_well_formed_iff plainColumns (by decide)
        (by decide) hc (blobPages_built hbuilt) (blobFile_holds hf)).2⟩

/-- The index of five such rows takes two leaf pages, and its tree holds more than five
entries. -/
theorem five_rows_repeated :
    ∃ cells file, blobCells 5=.ok cells ∧ blobFile 5=.ok file ∧ cells.length=5 ∧
      ¬WellFormedIndex ⟨pageSize,0,file⟩ 2 cells := by
  have hcells : (blobCells 5).map (fun cells => decide (cells.length=5 ∧ ¬FitsOneLeaf cells))=
      .ok true := by decide +kernel
  have hfile : (blobFile 5).toOption.isSome := by decide +kernel
  have hbuilt : (buildIndexBtree plainColumns blobTable (blobRows 5) blobIndex 2 emptyFile).1=
      .ok () := by decide +kernel
  cases hc : blobCells 5 with
  | error e =>
    rw [hc] at hcells
    cases hcells
  | ok cells =>
    cases hf : blobFile 5 with
    | error e =>
      rw [hf] at hfile
      cases hfile
    | ok file =>
      rw [hc] at hcells
      obtain ⟨hlength,hmany⟩ := of_decide_eq_true (Except.ok.inj hcells)
      refine ⟨cells,file,rfl,rfl,hlength,fun h => ?_⟩
      obtain ⟨height,payloads,_,htree,-,-,-,hcount⟩ := h
      have hle := blobPages_least hbuilt hc hmany _ (blobFile_holds hf) height payloads htree
      omega

end RustSql.Sqlite3
