import Mathlib.Data.List.Induction
import Shadowsocks.Browser.Session
import Shadowsocks.Library.Row

/-!
The browser as its user knows it: a row of tabs with one of them in front, each with a title and an
address. The tab bar, the pages, the web views and the view controller together are such a row.
-/
namespace Shadowsocks

/-- A title and an address. -/
abbrev PageContent : Type := Option Text × Option Text

namespace PageManager

variable {m m' : PageManager} {tag page : Nat}

def content (m : PageManager) (tag : Nat) : PageContent :=
  (m.pageByTag tag).elim (none, none) fun page => ((m.object page).title, (m.object page).url)

theorem content_eq (hpage : m.pageByTag tag = some page) :
    m.content tag = ((m.object page).title, (m.object page).url) := by
  rw [content, hpage, Option.elim_some]

theorem Same.content (h : m.Same m') (tag : Nat) : m'.content tag = m.content tag := by
  simp only [PageManager.content, h.pageByTag, h.title, h.url]

theorem content_removePage {other : Nat} (hne : other ≠ tag) :
    (m.removePage tag).content other = m.content other := by
  rw [content, pageByTag_removePage, if_neg hne]
  rfl

/-- A page that is changed is that of one tag only. -/
theorem content_modify_ne (h : m.Mapped) (hpage : m.pageByTag tag = some page) {f : Page → Page}
    {other : Nat} (hne : other ≠ tag) : (m.modify page f).content other = m.content other := by
  have hmapping : (m.modify page f).pageByTag other = m.pageByTag other := rfl
  rw [content, content, hmapping]
  cases hother : m.pageByTag other with
  | none => rfl
  | some page' =>
    have hpages : page' ≠ page := by
      rintro rfl
      exact hne (h.inj _ _ _ hother hpage)
    rw [Option.elim_some, Option.elim_some, modify_object, if_neg hpages]

theorem content_modify (hpage : m.pageByTag tag = some page) (f : Page → Page) :
    (m.modify page f).content tag = ((f (m.object page)).title, (f (m.object page)).url) := by
  have hmodified : (m.modify page f).pageByTag tag = some page := hpage
  rw [content_eq hmodified, modify_object, if_pos rfl]

/-- The new page is that of the new tag, and the others have theirs. -/
theorem content_addPage (h : m.Mapped) (f : Page → Page) (other : Nat) :
    ((m.addPageWithTag tag).1.modify m.next f).content other =
      if other = tag then ((f ⟨none, none, none⟩).title, (f ⟨none, none, none⟩).url)
      else m.content other := by
  have hmapping : ((m.addPageWithTag tag).1.modify m.next f).pageByTag other =
      if other = tag then some m.next else m.pageByTag other := Function.update_apply ..
  have hobject : (m.addPageWithTag tag).1.object m.next = ⟨none, none, none⟩ :=
    Function.update_self ..
  by_cases hother : other = tag
  · rw [if_pos hother] at hmapping ⊢
    rw [content_eq hmapping, modify_object, if_pos rfl, hobject]
  · rw [if_neg hother] at hmapping ⊢
    rw [content, content, hmapping]
    cases hpage : m.pageByTag other with
    | none => rfl
    | some page =>
      have hlt := h.lt_next page ((h.mem_iff page).mpr ⟨other, hpage⟩)
      have hadded : (m.addPageWithTag tag).1.object page = m.object page :=
        Function.update_of_ne (Nat.ne_of_lt hlt) ..
      rw [Option.elim_some, Option.elim_some, modify_object, if_neg (Nat.ne_of_lt hlt), hadded]

end PageManager

/-- The row that the user sees. -/
def ViewController.row (v : ViewController) : Row PageContent :=
  .ofStore (v.tabBar.tabs.map Tab.tag) v.pageManager.content (v.tabBar.currentTab.map Tab.tag)
    v.tabBar.currentMaxTag

/-- A link in a new tab, which has no title yet. -/
def openTab (url : Text) (r : Row PageContent) : Row PageContent := r.add (some [], some url)

/-- A tab goes; when it was the only one, another takes its place. -/
def closeTab (tag : Nat) (r : Row PageContent) : Row PageContent :=
  if tag ∈ r.keys then
    let r := r.remove tag
    if r.items = [] then openTab "http://www.twitter.com/".toList r else r
  else r

/-- What an action does to the row. -/
def Browsing.onRow (r : Row PageContent) : Browsing → Row PageContent
  | .openLink url => openTab url r
  | .select tag => r.select tag
  | .close tag => closeTab tag r
  | .drag tag position => r.move tag (min (max position 0) (r.items.length - 1)).toNat
  | .didReceiveMemoryWarning => r
  | .didFinishLoad tag title url => r.write tag (title, url)

/-- The row of the pages that have been loaded, with the last selected one in front. -/
def rowOfPages (pages : List Page) : Row PageContent :=
  if pages = [] then openTab "http://www.google.com/".toList .empty
  else
    .ofStore (List.range pages.length)
      (fun tag => pages[tag]?.elim (none, none) fun page => (page.title, page.url))
      (some (((List.range pages.length).filter fun tag =>
        pages[tag]?.any fun page => page.selected.getD false).getLast?.getD 0)) pages.length

namespace ViewController

variable {v : ViewController} {tag other : Nat} {url : Text}

theorem row_openLinkInNewTab (url : Text) (hordered : v.tabBar.Ordered)
    (hmapped : v.pageManager.Mapped)
    (hkeys : ∀ tag, (v.pageManager.pageByTag tag).isSome ↔ tag ∈ v.tabBar.tabs.map Tab.tag) :
    (v.openLinkInNewTab url).row = openTab url v.row := by
  obtain ⟨-, hbar, hsame, -⟩ := openLinkInNewTab_spec url hordered hkeys
  have hcontent : ∀ tag, (v.openLinkInNewTab url).pageManager.content tag =
      if tag = v.tabBar.currentMaxTag then (some [], some url)
      else v.pageManager.content tag := by
    intro tag
    rw [hsame.content, PageManager.content_addPage hmapped]
  have hnew := hcontent v.tabBar.currentMaxTag
  rw [if_pos rfl] at hnew
  have hold : ∀ tag ∈ v.tabBar.tabs.map Tab.tag,
      (v.openLinkInNewTab url).pageManager.content tag = v.pageManager.content tag := by
    intro tag htag
    rw [hcontent, if_neg (Nat.ne_of_lt (hordered.lt_max tag htag))]
  rw [openTab, row, row, Row.add_ofStore hnew hold, hbar]
  simp only [TabBar.newTab, List.map_append, List.map_cons, List.map_nil, Option.map_some]

/-- Another web view changes neither the tabs nor what the pages hold. -/
theorem switchToWebView_same (v : ViewController) (tag : Nat) :
    (v.switchToWebView tag).tabBar = v.tabBar ∧
      v.pageManager.Same (v.switchToWebView tag).pageManager := by
  simp only [switchToWebView]
  split
  · exact ⟨rfl, .refl _⟩
  · exact ⟨rfl, PageManager.same_select _ _⟩

theorem setCurrentTab_same (v : ViewController) (tab : Option Tab) :
    (v.setCurrentTab tab).tabBar = { v.tabBar with currentTab := tab } ∧
      v.pageManager.Same (v.setCurrentTab tab).pageManager := by
  simp only [setCurrentTab]
  split
  · rename_i heq
    rw [heq]
    exact ⟨rfl, .refl _⟩
  · cases tab with
    | none => exact ⟨rfl, .refl _⟩
    | some tab => exact switchToWebView_same { v with tabBar := _ } tab.tag

theorem row_setCurrentTab {tab : Tab} (hmem : tab ∈ v.tabBar.tabs) :
    (v.setCurrentTab (some tab)).row = v.row.select tab.tag := by
  obtain ⟨hbar, hsame⟩ := v.setCurrentTab_same (some tab)
  rw [row, row, Row.select_ofStore (List.mem_map_of_mem hmem), hbar]
  exact Row.ofStore_congr fun tag _ => hsame.content tag

theorem idxOf_tag (tabs : List Tab) (tab : Tab) :
    (tabs.map Tab.tag).idxOf tab.tag = tabs.idxOf tab := by
  induction tabs with
  | nil => rfl
  | cons other tabs ih =>
    rw [List.map_cons]
    by_cases heq : other = tab
    · rw [heq, List.idxOf_cons_self, List.idxOf_cons_self]
    · have htag : other.tag ≠ tab.tag := fun htag => heq (by cases other; cases tab; cases htag; rfl)
      rw [List.idxOf_cons_ne _ htag, List.idxOf_cons_ne _ heq, ih]

/-- The tab that comes in front is the neighbour of the one that is left. -/
theorem leaveTab_same {tab : Tab} (hmem : tab ∈ v.tabBar.tabs) :
    ∃ current, (v.leaveTab tab).tabBar = { v.tabBar with currentTab := current } ∧
      v.pageManager.Same (v.leaveTab tab).pageManager ∧
      current.map Tab.tag =
        if v.tabBar.currentTab.map Tab.tag = some tab.tag then
          Row.neighbour (v.tabBar.tabs.map Tab.tag) tab.tag
        else v.tabBar.currentTab.map Tab.tag := by
  have hindex := List.idxOf_lt_length_of_mem hmem
  have htag : v.tabBar.currentTab.map Tab.tag = some tab.tag ↔ v.tabBar.currentTab = some tab := by
    cases v.tabBar.currentTab with
    | none => simp
    | some other => cases other; cases tab; simp
  have hset : ∀ i : Nat, ∃ current,
      (v.setCurrentTab v.tabBar.tabs[i]?).tabBar = { v.tabBar with currentTab := current } ∧
        v.pageManager.Same (v.setCurrentTab v.tabBar.tabs[i]?).pageManager ∧
        current.map Tab.tag = (v.tabBar.tabs.map Tab.tag)[i]? := by
    intro i
    obtain ⟨hbar, hsame⟩ := v.setCurrentTab_same v.tabBar.tabs[i]?
    exact ⟨_, hbar, hsame, List.getElem?_map.symm⟩
  simp only [leaveTab, htag, Row.neighbour, idxOf_tag, List.length_map]
  by_cases hcurrent : v.tabBar.currentTab = some tab
  · rw [if_pos hcurrent, if_pos hcurrent]
    by_cases hone : v.tabBar.tabs.length = 1
    · obtain ⟨hbar, hsame⟩ := v.setCurrentTab_same none
      rw [if_neg (not_not.mpr hone), if_neg (by omega), if_pos (by omega)]
      exact ⟨none, hbar, hsame, rfl⟩
    · rw [if_pos hone]
      by_cases hlast : v.tabBar.tabs.idxOf tab = v.tabBar.tabs.length - 1
      · rw [if_pos hlast, if_pos (by omega), if_neg (by omega), if_neg (by omega)]
        exact hset _
      · rw [if_neg hlast, if_pos (by omega)]
        exact hset _
  · rw [if_neg hcurrent, if_neg hcurrent]
    exact ⟨_, rfl, .refl _, rfl⟩

/-- There is a page left when there is a tab left. -/
theorem pages_eq_nil_iff (hmapped : v.pageManager.Mapped)
    (hkeys : ∀ tag, (v.pageManager.pageByTag tag).isSome ↔ tag ∈ v.tabBar.tabs.map Tab.tag) :
    v.pageManager.pages.length = 0 ↔ v.row.items = [] := by
  rw [List.length_eq_zero_iff, row, Row.ofStore, List.map_eq_nil_iff,
    List.eq_nil_iff_forall_not_mem, List.eq_nil_iff_forall_not_mem]
  constructor
  · intro hnone tag htag
    obtain ⟨page, hpage⟩ := Option.isSome_iff_exists.mp ((hkeys tag).mpr htag)
    exact hnone page ((hmapped.mem_iff page).mpr ⟨tag, hpage⟩)
  · intro hnone page hpage
    obtain ⟨tag, htag⟩ := (hmapped.mem_iff page).mp hpage
    exact hnone tag ((hkeys tag).mp (Option.isSome_of_eq_some htag))

theorem isSome_pageByTag_removePage
    (hkeys : ∀ tag, (v.pageManager.pageByTag tag).isSome ↔
      tag ∈ v.tabBar.tabs.map Tab.tag ∨ tag = other)
    (hout : other ∉ v.tabBar.tabs.map Tab.tag) (tag : Nat) :
    ((v.pageManager.removePage other).pageByTag tag).isSome ↔
      tag ∈ v.tabBar.tabs.map Tab.tag := by
  rw [PageManager.pageByTag_removePage]
  by_cases htag : tag = other
  · rw [if_pos htag, htag]
    exact ⟨fun h => (by cases h), fun hmem => absurd hmem hout⟩
  · rw [if_neg htag, hkeys]
    exact ⟨fun h => h.resolve_right htag, Or.inl⟩

/-- The page goes with the tab that has gone. -/
theorem row_tabBarViewTabDidClose {tab : Tab} (hordered : v.tabBar.Ordered)
    (hmapped : v.pageManager.Mapped)
    (hkeys : ∀ tag, (v.pageManager.pageByTag tag).isSome ↔
      tag ∈ v.tabBar.tabs.map Tab.tag ∨ tag = tab.tag)
    (hout : tab.tag ∉ v.tabBar.tabs.map Tab.tag) :
    (v.tabBarViewTabDidClose tab).row =
      if v.row.items = [] then openTab "http://www.twitter.com/".toList v.row else v.row := by
  obtain ⟨page, hpage⟩ := Option.isSome_iff_exists.mp ((hkeys tab.tag).mpr (Or.inr rfl))
  obtain ⟨v', hv', hbar, hsame⟩ : ∃ v' : ViewController, v.tabBarViewTabDidClose tab =
      (if v'.pageManager.pages.length = 0 then
        v'.openLinkInNewTab "http://www.twitter.com/".toList else v') ∧
      v'.tabBar = v.tabBar ∧ (v.pageManager.removePage tab.tag).Same v'.pageManager := by
    refine ⟨_, rfl, ?_⟩
    cases hcurrent : v.tabBar.currentTab with
    | none => exact ⟨rfl, .refl _⟩
    | some other => exact switchToWebView_same { v with
        pageManager := v.pageManager.removePage tab.tag
        webViewContainer := v.webViewContainer.closeWebView tab.tag } other.tag
  have hmapped' := hsame.mapped (hmapped.mapped_removePage hpage)
  have hkeys' : ∀ tag,
      (v'.pageManager.pageByTag tag).isSome ↔ tag ∈ v'.tabBar.tabs.map Tab.tag := by
    intro tag
    rw [hsame.pageByTag, hbar]
    exact isSome_pageByTag_removePage hkeys hout tag
  have hrow : v'.row = v.row := by
    rw [row, row, hbar]
    apply Row.ofStore_congr
    intro tag htag
    rw [hsame.content, PageManager.content_removePage]
    rintro rfl
    exact hout htag
  have hempty := pages_eq_nil_iff hmapped' hkeys'
  rw [hrow] at hempty
  rw [hv']
  by_cases hnone : v.row.items = []
  · rw [if_pos (hempty.mpr hnone), if_pos hnone, ← hrow]
    exact row_openLinkInNewTab _ (hbar ▸ hordered) hmapped' hkeys'
  · rw [if_neg (fun h => hnone (hempty.mp h)), if_neg hnone, hrow]

theorem row_closeTab (h : v.Invariant) {tab : Tab} (hmem : tab ∈ v.tabBar.tabs) :
    (v.closeTab tab).row = Shadowsocks.closeTab tab.tag v.row := by
  obtain ⟨current, hbar, hsame, hcurrent⟩ := leaveTab_same hmem
  have hordered := TabBar.ordered_remove h.ordered hmem
  have hfilter := List.map_filter_ne h.ordered.nodup hmem
  have hrow : ∀ b : TabBar, b = { v.tabBar with
      tabs := v.tabBar.tabs.filter (· ≠ tab)
      tabViews := v.tabBar.tabViews.filter (some · ≠ v.tabBar.tabViewByTag tab.tag)
      currentTab := current } →
      ({ v.leaveTab tab with tabBar := b } : ViewController).row = v.row.remove tab.tag := by
    rintro b rfl
    rw [row, row, Row.remove_ofStore, ← hcurrent, hfilter]
    exact Row.ofStore_congr fun tag _ => hsame.content tag
  have hkey : tab.tag ∈ v.row.keys := by
    rw [row, Row.keys_ofStore]
    exact List.mem_map_of_mem hmem
  rw [Shadowsocks.closeTab, if_pos hkey, ← hrow _ rfl]
  simp only [closeTab, hbar]
  apply row_tabBarViewTabDidClose
  · exact ⟨hordered.nodup, hordered.tabViews, hordered.lt_max⟩
  · exact hsame.mapped h.mapped
  · intro tag
    simp only [hsame.pageByTag, hfilter, List.mem_filter, decide_eq_true_eq, h.keys]
    by_cases heq : tag = tab.tag
    · rw [heq]
      exact ⟨fun _ => Or.inr rfl, fun _ => List.mem_map_of_mem hmem⟩
    · exact ⟨fun hin => Or.inl ⟨hin, heq⟩, fun hin => (hin.resolve_right heq).1⟩
  · simp only [hfilter, List.mem_filter, decide_eq_true_eq]
    exact fun hin => hin.2 rfl

/-- A tag is that of no tab, or that of a tab and its view. -/
theorem lookUp_tag (h : v.tabBar.Ordered) (tag : Nat) :
    (tag ∉ v.tabBar.tabs.map Tab.tag ∧ v.tabBar.tabViewByTag tag = none) ∨
      ∃ tab ∈ v.tabBar.tabs, tab.tag = tag ∧ v.tabBar.tabViewByTag tag = some ⟨tag⟩ ∧
        v.tabBar.tabByTag tag = some tab := by
  cases hview : v.tabBar.tabViewByTag tag with
  | none =>
    refine Or.inl ⟨?_, rfl⟩
    rw [← h.tabViews]
    intro hmem
    obtain ⟨tabView, htabView, rfl⟩ := List.mem_map.mp hmem
    have hnot := List.find?_eq_none.mp hview tabView htabView
    simp at hnot
  | some tabView =>
    obtain ⟨tab, htab, hmem⟩ := TabBar.tab_of_tabView h (List.mem_of_find?_eq_some hview)
    have hviewTag : tabView.tag = tag := by simpa using List.find?_some hview
    have htabTag : tab.tag = tabView.tag := by simpa using List.find?_some htab
    subst hviewTag
    exact Or.inr ⟨tab, hmem, htabTag, rfl, htab⟩

theorem row_select (h : v.Invariant) (tag : Nat) :
    (v.step (.select tag)).row = v.row.select tag := by
  simp only [step]
  rcases lookUp_tag h.ordered tag with ⟨hout, hview⟩ | ⟨tab, hmem, rfl, hview, htab⟩
  · rw [hview, Option.elim_none]
    exact (Row.select_of_not_mem hout).symm
  · rw [hview, Option.elim_some, htab]
    exact row_setCurrentTab hmem

theorem row_close (h : v.Invariant) (tag : Nat) :
    (v.step (.close tag)).row = Shadowsocks.closeTab tag v.row := by
  simp only [step]
  rcases lookUp_tag h.ordered tag with ⟨hout, hview⟩ | ⟨tab, hmem, rfl, hview, htab⟩
  · rw [hview, Shadowsocks.closeTab, if_neg]
    · rfl
    · rwa [row, Row.keys_ofStore]
  · rw [hview, Option.elim_some, htab, Option.elim_some]
    exact row_closeTab h hmem

/-- Dragging a tab to where it is changes nothing. -/
theorem row_drag (h : v.Invariant) (tag : Nat) (position : Int) :
    (v.step (.drag tag position)).row =
      v.row.move tag (min (max position 0) (v.row.items.length - 1)).toNat := by
  have hlength : v.row.items.length = v.tabBar.tabs.length := by
    rw [row, Row.ofStore, List.length_map, List.length_map]
  simp only [step, hlength]
  rcases lookUp_tag h.ordered tag with ⟨hout, hview⟩ | ⟨tab, hmem, rfl, hview, htab⟩
  · rw [hview, Option.elim_none]
    exact (Row.move_of_not_mem hout _).symm
  · have hkey : tab.tag ∈ v.tabBar.tabs.map Tab.tag := List.mem_map_of_mem hmem
    rw [hview, Option.elim_some]
    simp only [TabBar.drag, htab]
    generalize (min (max position 0) ((v.tabBar.tabs.length : Int) - 1)).toNat = index
    rw [row, row, Row.move_ofStore hkey]
    by_cases hindex : v.tabBar.tabs.idxOf tab = index
    · have hback := Row.insertIdx_idxOf h.ordered.nodup hkey
      rw [idxOf_tag, hindex] at hback
      rw [if_neg (not_not.mpr hindex), hback]
    · rw [if_pos hindex]
      dsimp only
      rw [List.map_insertIdx, List.map_filter_ne h.ordered.nodup hmem]

theorem row_didFinishLoad (h : v.Invariant) (tag : Nat) (title url : Option Text) :
    (v.step (.didFinishLoad tag title url)).row = v.row.write tag (title, url) := by
  simp only [step]
  cases hpage : v.pageManager.pageByTag tag with
  | none =>
    have hout : tag ∉ v.tabBar.tabs.map Tab.tag := by
      intro hmem
      have hsome := (h.keys tag).mpr hmem
      rw [hpage] at hsome
      cases hsome
    exact (Row.write_of_not_mem hout).symm
  | some page =>
    have hcontent : (v.pageManager.modify page fun page =>
        { page with title := title, url := url }).content tag = (title, url) :=
      PageManager.content_modify hpage _
    rw [Option.elim_some, row, row, Row.write_ofStore hcontent fun other hother =>
      PageManager.content_modify_ne h.mapped hpage hother]

/-- Whatever the user or the system does, it is done to the row. -/
theorem row_step (h : v.Invariant) (e : Browsing) : (v.step e).row = e.onRow v.row := by
  cases e with
  | openLink url => exact row_openLinkInNewTab url h.ordered h.mapped h.keys
  | select tag => exact row_select h tag
  | close tag => exact row_close h tag
  | drag tag position => exact row_drag h tag position
  | didReceiveMemoryWarning => rfl
  | didFinishLoad tag title url => exact row_didFinishLoad h tag title url

/-- The last page that is selected comes in front. -/
theorem selectedTag_eq (pages : List Page) : selectedTag pages =
    ((List.range pages.length).filter fun tag =>
      pages[tag]?.any fun page => page.selected.getD false).getLast?.getD 0 := by
  have hfold : ∀ (p : Nat → Bool) (tags : List Nat),
      tags.foldl (fun tag i => if p i then i else tag) 0 = (tags.filter p).getLast?.getD 0 := by
    intro p tags
    induction tags using List.reverseRecOn with
    | nil => rfl
    | append_singleton tags i ih =>
      rw [List.foldl_append, List.foldl_cons, List.foldl_nil, ih, List.filter_append]
      by_cases hi : p i = true
      · rw [if_pos hi, List.filter_cons_of_pos hi, List.filter_nil, List.getLast?_concat,
          Option.getD_some]
      · rw [if_neg hi, List.filter_cons_of_neg hi, List.filter_nil, List.append_nil]
  rw [selectedTag, hfold]
  congr 2
  apply List.filter_congr
  intro tag htag
  have hlt := List.mem_range.mp htag
  rw [PageManager.isSelectedAt_loaded pages hlt, List.getElem?_eq_getElem hlt, Option.any_some]

theorem content_loaded (pages : List Page) {tag : Nat} (htag : tag < pages.length) :
    (PageManager.loaded pages).content tag =
      pages[tag]?.elim (none, none) fun page => (page.title, page.url) := by
  have hpage : (PageManager.loaded pages).pageByTag tag = some tag := by
    rw [PageManager.pageByTag_loaded, if_pos htag]
  have hobject : (PageManager.loaded pages).object tag = pages[tag]?.getD ⟨none, none, none⟩ := rfl
  rw [PageManager.content_eq hpage, hobject, List.getElem?_eq_getElem htag, Option.getD_some,
    Option.elim_some]

theorem addNewTab_same (v : ViewController) :
    v.addNewTab.tabBar.currentMaxTag = v.tabBar.currentMaxTag + 1 ∧
      v.pageManager.Same v.addNewTab.pageManager := by
  obtain ⟨hbar, hsame⟩ := (({ v with tabBar := v.tabBar.newTab.1 } : ViewController).newWebView
    v.tabBar.newTab.2.tag).setCurrentTab_same (some v.tabBar.newTab.2)
  exact ⟨congrArg TabBar.currentMaxTag hbar, (PageManager.same_select _ _).trans hsame⟩

theorem foldl_addNewTab (v : ViewController) (n : Nat) :
    ((List.range n).foldl (fun v _ => v.addNewTab) v).tabBar.currentMaxTag =
        v.tabBar.currentMaxTag + n ∧
      v.pageManager.Same ((List.range n).foldl (fun v _ => v.addNewTab) v).pageManager := by
  induction n with
  | zero => exact ⟨rfl, .refl _⟩
  | succ n ih =>
    rw [List.range_succ, List.foldl_append, List.foldl_cons, List.foldl_nil]
    obtain ⟨hmax, hsame⟩ := addNewTab_same ((List.range n).foldl (fun v _ => v.addNewTab) v)
    exact ⟨by rw [hmax, ih.1, Nat.add_assoc], ih.2.trans hsame⟩

/-- Every page is given the next tag. -/
theorem currentMaxTag_initPagesAndTabs (hpages : v.pageManager.pages ≠ []) :
    v.initPagesAndTabs.tabBar.currentMaxTag =
      v.tabBar.currentMaxTag + v.pageManager.pages.length := by
  rw [initPagesAndTabs]
  generalize hstart : ({ v with
      pageManager := v.pageManager.initMappingAndTabsByPages
      currentTabTag := _ } : ViewController) = start
  obtain ⟨hmax, hsame⟩ := start.foldl_addNewTab v.pageManager.initMappingAndTabsByPages.pages.length
  have hpages' : start.pageManager.pages = v.pageManager.pages := by rw [← hstart]; rfl
  have hmax' : start.tabBar.currentMaxTag = v.tabBar.currentMaxTag := by rw [← hstart]
  rw [if_neg]
  · rw [(setCurrentTab_same _ _).1]
    dsimp only
    rw [hmax, hmax']
    rfl
  · rw [hsame.pages, hpages', List.length_eq_zero_iff]
    exact hpages

theorem row_viewDidLoad (pages : List Page) : (viewDidLoad pages).row = rowOfPages pages := by
  by_cases hpages : pages = []
  · subst hpages
    exact row_openLinkInNewTab (v := ⟨⟨[], [], none, 0⟩, PageManager.loaded [], ⟨[], none, 0⟩, 0⟩)
      _ ⟨List.nodup_nil, rfl, fun _ h => (by cases h)⟩ (PageManager.mapped_loaded [])
      fun tag => (PageManager.isSome_pageByTag_loaded [] tag).trans
        ⟨fun h => absurd h (Nat.not_lt_zero tag), fun h => (by cases h)⟩
  · obtain ⟨hinvariant, hsame, htabs, hcurrent⟩ := viewDidLoad_spec hpages
    have hcount : (PageManager.load pages).pages.length = pages.length := List.length_range
    have hmax : (viewDidLoad pages).tabBar.currentMaxTag = pages.length := by
      rw [viewDidLoad, currentMaxTag_initPagesAndTabs, hcount, Nat.zero_add]
      exact fun h => hpages (List.length_eq_zero_iff.mp (hcount ▸ congrArg List.length h))
    rw [rowOfPages, if_neg hpages, row, htabs, map_tag_range, hcurrent, hmax, selectedTag_eq,
      Option.map_some]
    apply Row.ofStore_congr
    intro tag htag
    rw [hsame.content, content_loaded pages (List.mem_range.mp htag)]

theorem row_run (h : v.Invariant) (es : List Browsing) :
    (Run.after step v es).row = Run.after Browsing.onRow v.row es := by
  induction es generalizing v with
  | nil => rfl
  | cons e es ih => rw [Run.after_cons, Run.after_cons, ih (invariant_step h e), row_step h e]

/-- From any pages and through any actions, the browser is the row of tabs on which these actions
are performed, and the web view that is shown is that of the tab in front. -/
theorem row_after (pages : List Page) (es : List Browsing) :
    (after pages es).row = Run.after Browsing.onRow (rowOfPages pages) es ∧
      (after pages es).webViewContainer.currentWebView.map WebView.tag =
        (after pages es).row.front := by
  constructor
  · rw [after, row_run (invariant_viewDidLoad pages), row_viewDidLoad]
  · obtain ⟨tab, -, hcurrent, -, webView, hwebView, htag⟩ := (inStep_after pages es).current
    rw [hwebView, Option.map_some, htag, row, Row.front_ofStore, hcurrent, Option.map_some]

/-- The last tab is closed while it is in front. -/
example : (after [] [.openLink ['a'], .openLink ['b'], .drag 2 0, .close 2, .close 1]).row =
    ⟨[(0, some [], some "http://www.google.com/".toList)], some 0, 3⟩ := by
  decide +kernel

end ViewController

end Shadowsocks
