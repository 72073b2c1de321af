import Mathlib.Data.Fintype.Card

/-!
# The rooms and objects of the game

The identifiers and the tables of `world.c`.  The rows of a table carry their
identifier in the source; here a table is a function of it.
-/

namespace CompE.Adventure

/-- The rooms; the inventory is one of them. -/
inductive RoomId where
  | inventory | in391lab | by391lab | inIeee | byIeee | in395lab | by395lab
  | evtStair | inCleanr | byCleanr | evrtVend | almamater | inCocomr | byCocomr
  | byZas | eastEvrt | evrtBsmt | westBone | circleN | circleSw | eastBone
  | bardeen | libBack | reserve | talbotNw | talbotSw | talbot | springfld
  | caribou | kenney | dcl | libFront | kenneyE | newmark | mntlNw | mntlSw
  | mntllobby | mntlLab1 | mntlLab2 | mntlLab3 | cslView | cslDoor | cslLobby
  | cslUpper | csllounge | beckLot | beckman | beckDoor | becklobby | beckMri
  | garage | carSite | allerton | fuDogs | statue | sunsinger | willard
  | willSide | remPlane | cockpit | overWill | airRio | remIce | remLab
  deriving DecidableEq

/-- The objects. -/
inductive ObjectId where
  | board | jetpack | tux | mp2 | bookC | bookWode | gpsBad | gpsGood | gpsSpec
  | bunnysuit | battEmpty | battFull | battCar | mtnDew | fish | icard | carKey
  | robotDead | robotLive | mimoCard
  deriving DecidableEq

/-- The player's accomplishments. -/
inductive Flag where
  | hasEaten | wearingSuit | carOpen | carFixed | luredTux
  deriving DecidableEq

/-- The rooms with photo swapping. -/
inductive Swap where
  | circle | car
  deriving DecidableEq

/-- `room_data_t`; `R_NONE` is `none`. -/
structure RoomData where
  filename : String
  left : Option RoomId
  enter : Option RoomId
  right : Option RoomId

/-- `obj_data_t`; a position of -1 is random. -/
structure ObjData where
  name : String
  filename : String
  room : Option RoomId
  x : Int
  y : Int

/-- `room_data`. -/
def roomData : RoomId → RoomData
  | .inventory => ⟨"images/backpack.photo", none, none, none⟩
  | .in391lab => ⟨"images/391lab.photo", none, some .by391lab, none⟩
  | .by391lab =>
      ⟨"images/outside391.photo", some .byZas, some .in391lab, some .byIeee⟩
  | .inIeee => ⟨"images/ieee.photo", none, some .byIeee, none⟩
  | .byIeee =>
      ⟨"images/byieee.photo", some .by391lab, some .inIeee, some .by395lab⟩
  | .in395lab => ⟨"images/395lab.photo", none, some .by395lab, none⟩
  | .by395lab => ⟨"images/outside395.photo", some .byIeee, none, some .evtStair⟩
  | .evtStair =>
      ⟨"images/evtstair.photo", some .by395lab, some .eastEvrt, some .byCleanr⟩
  | .inCleanr => ⟨"images/cleanr.photo", none, some .byCleanr, none⟩
  | .byCleanr => ⟨"images/outclean.photo", some .evtStair, none, some .evrtVend⟩
  | .evrtVend => ⟨"images/vend.photo", some .byCleanr, some .evrtBsmt, none⟩
  | .almamater =>
      ⟨"images/almamater.photo", some .eastEvrt, some .eastEvrt, some .byCocomr⟩
  | .inCocomr => ⟨"images/incoco.photo", none, some .byCocomr, none⟩
  | .byCocomr =>
      ⟨"images/bycoco.photo", some .almamater, some .inCocomr, some .byZas⟩
  | .byZas => ⟨"images/ruins.photo", some .byCocomr, none, none⟩
  | .eastEvrt =>
      ⟨"images/eeast.photo", some .almamater, some .evtStair, some .evrtBsmt⟩
  | .evrtBsmt =>
      ⟨"images/basement.photo", some .eastEvrt, some .evrtVend, some .circleSw⟩
  | .westBone => ⟨"images/bonew.photo", some .circleSw, none, some .circleN⟩
  | .circleN =>
      ⟨"images/circlen1.photo", some .westBone, some .talbotNw, some .eastBone⟩
  | .circleSw =>
      ⟨"images/circlesw.photo", some .eastBone, some .evrtBsmt, some .circleN⟩
  | .eastBone => ⟨"images/bonee.photo", some .circleN, none, some .circleSw⟩
  | .bardeen =>
      ⟨"images/bardeen.photo", some .libBack, some .eastBone, some .talbotSw⟩
  | .libBack =>
      ⟨"images/graingerback.photo", some .dcl, some .reserve, some .bardeen⟩
  | .reserve => ⟨"images/reserve.photo", none, some .libBack, some .libFront⟩
  | .talbotNw =>
      ⟨"images/talbotnw.photo", some .circleSw, some .talbot, some .talbotSw⟩
  | .talbotSw =>
      ⟨"images/talbotsw.photo", some .talbotNw, some .talbot, some .springfld⟩
  | .talbot => ⟨"images/talbot.photo", none, some .talbotNw, none⟩
  | .springfld =>
      ⟨"images/springfield.photo", some .talbotSw, some .caribou, some .kenney⟩
  | .caribou => ⟨"images/caribou.photo", none, some .springfld, none⟩
  | .kenney => ⟨"images/kenney.photo", some .springfld, none, some .dcl⟩
  | .dcl => ⟨"images/dcl.photo", some .kenney, some .kenneyE, some .libFront⟩
  | .libFront =>
      ⟨"images/graingerfront.photo", some .dcl, some .reserve, some .talbotSw⟩
  | .kenneyE => ⟨"images/kenneye.photo", some .dcl, some .dcl, some .newmark⟩
  | .newmark => ⟨"images/newmark.photo", some .mntlNw, none, some .kenneyE⟩
  | .mntlNw =>
      ⟨"images/mntlnw.photo", some .newmark, some .mntllobby, some .cslView⟩
  | .mntlSw =>
      ⟨"images/mntlsw.photo", some .mntlNw, some .mntllobby, some .beckman⟩
  | .mntllobby =>
      ⟨"images/mntllobby.photo", some .mntlLab1, some .mntlSw, some .mntlLab2⟩
  | .mntlLab1 => ⟨"images/mntllab1.photo", none, none, some .mntllobby⟩
  | .mntlLab2 =>
      ⟨"images/mntllab2.photo", some .mntllobby, some .mntlLab3, none⟩
  | .mntlLab3 => ⟨"images/mntllab3.photo", none, some .mntlLab2, none⟩
  | .cslView => ⟨"images/csl.photo", some .beckLot, some .cslDoor, some .mntlNw⟩
  | .cslDoor => ⟨"images/csldoor.photo", some .beckLot, none, some .mntlNw⟩
  | .cslLobby => ⟨"images/csllobby.photo", some .cslUpper, some .cslDoor, none⟩
  | .cslUpper =>
      ⟨"images/cslupper.photo", none, some .csllounge, some .cslLobby⟩
  | .csllounge => ⟨"images/csllounge.photo", none, some .cslUpper, none⟩
  | .beckLot =>
      ⟨"images/becklot.photo", some .beckman, some .garage, some .cslView⟩
  | .beckman =>
      ⟨"images/beckman.photo", some .mntlSw, some .beckDoor, some .beckLot⟩
  | .beckDoor => ⟨"images/beckdoor.photo", some .mntlSw, none, some .beckLot⟩
  | .becklobby =>
      ⟨"images/becklobby.photo", none, some .beckMri, some .beckDoor⟩
  | .beckMri => ⟨"images/beckmri.photo", none, some .becklobby, none⟩
  | .garage => ⟨"images/garage.photo", some .beckLot, some .carSite, none⟩
  | .carSite => ⟨"images/carclosed.photo", none, some .garage, none⟩
  | .allerton => ⟨"images/allerton.photo", some .fuDogs, none, some .sunsinger⟩
  | .fuDogs => ⟨"images/fudogs.photo", none, some .statue, some .allerton⟩
  | .statue => ⟨"images/statue.photo", none, some .fuDogs, none⟩
  | .sunsinger => ⟨"images/sunsinger.photo", some .allerton, none, none⟩
  | .willard => ⟨"images/willard.photo", none, some .willSide, none⟩
  | .willSide =>
      ⟨"images/willardside.photo", some .remPlane, none, some .willard⟩
  | .remPlane =>
      ⟨"images/rsenseplane.photo", some .cockpit, none, some .willSide⟩
  | .cockpit => ⟨"images/cockpit.photo", none, none, some .remPlane⟩
  | .overWill => ⟨"images/overwillard.photo", none, some .cockpit, some .airRio⟩
  | .airRio => ⟨"images/riofromair.photo", some .overWill, none, some .remIce⟩
  | .remIce => ⟨"images/rsenseice.photo", some .airRio, some .remLab, none⟩
  | .remLab => ⟨"images/rsenselab.photo", none, some .remIce, none⟩

/-- `obj_data`. -/
def objData : ObjectId → ObjData
  | .board => ⟨"board", "images/board.obj", some .inIeee, -1, -1⟩
  | .jetpack => ⟨"jetpack", "images/jetpack.obj", some .talbot, -1, -1⟩
  | .tux => ⟨"tux", "images/tux.obj", some .remLab, 250, 100⟩
  | .mp2 => ⟨"mp2", "images/mp2.obj", some .csllounge, -1, -1⟩
  | .bookC => ⟨"book", "images/book.obj", none, -1, -1⟩
  | .bookWode => ⟨"book", "images/book2.obj", none, -1, -1⟩
  | .gpsBad => ⟨"gps", "images/gpsbad.obj", some .talbot, -1, -1⟩
  | .gpsGood => ⟨"gps", "images/gpsgood.obj", none, -1, -1⟩
  | .gpsSpec => ⟨"spec", "images/gpsspec.obj", some .cslUpper, -1, -1⟩
  | .bunnysuit => ⟨"bunnysuit", "images/bunnysuit.obj", some .almamater, 230, 250⟩
  | .battEmpty => ⟨"battery", "images/battery.obj", none, -1, -1⟩
  | .battFull => ⟨"battery", "images/battery.obj", none, -1, -1⟩
  | .battCar => ⟨"battery", "images/batteryincar.obj", none, -1, -1⟩
  | .mtnDew => ⟨"dew", "images/dew.obj", none, -1, -1⟩
  | .fish => ⟨"fish", "images/fish.obj", some .eastBone, 80, 260⟩
  | .icard => ⟨"Icard", "images/icard.obj", some .bardeen, -1, -1⟩
  | .carKey => ⟨"key", "images/key.obj", some .caribou, -1, -1⟩
  | .robotDead => ⟨"robot", "images/robot.obj", some .mntlLab3, -1, -1⟩
  | .robotLive => ⟨"robot", "images/robot.obj", none, -1, -1⟩
  | .mimoCard => ⟨"mimo", "images/mimo.obj", some .statue, -1, -1⟩

/-- `swap_data`. -/
def swapData : Swap → String
  | .circle => "images/circlen2.photo"
  | .car => "images/caropen.photo"

/-- The rows of `room_data` in order. -/
def rooms : List RoomId :=
  [.inventory, .in391lab, .by391lab, .inIeee, .byIeee, .in395lab, .by395lab,
  .evtStair, .inCleanr, .byCleanr, .evrtVend, .almamater, .inCocomr, .byCocomr,
  .byZas, .eastEvrt, .evrtBsmt, .westBone, .circleN, .circleSw, .eastBone,
  .bardeen, .libBack, .reserve, .talbotNw, .talbotSw, .talbot, .springfld,
  .caribou, .kenney, .dcl, .libFront, .kenneyE, .newmark, .mntlNw, .mntlSw,
  .mntllobby, .mntlLab1, .mntlLab2, .mntlLab3, .cslView, .cslDoor, .cslLobby,
  .cslUpper, .csllounge, .beckLot, .beckman, .beckDoor, .becklobby, .beckMri,
  .garage, .carSite, .allerton, .fuDogs, .statue, .sunsinger, .willard,
  .willSide, .remPlane, .cockpit, .overWill, .airRio, .remIce, .remLab]

/-- The rows of `obj_data` in order. -/
def objects : List ObjectId :=
  [.board, .jetpack, .tux, .mp2, .bookC, .bookWode, .gpsBad, .gpsGood,
  .gpsSpec, .bunnysuit, .battEmpty, .battFull, .battCar, .mtnDew, .fish,
  .icard, .carKey, .robotDead, .robotLive, .mimoCard]

/-- The rows of `swap_data` in order. -/
def swaps : List Swap := [.circle, .car]

/-- `N_OBJECTS`. -/
def nObjects : Nat := 20

theorem mem_rooms (r : RoomId) : r ∈ rooms := by
  cases r <;> decide

theorem mem_objects (o : ObjectId) : o ∈ objects := by
  cases o <;> decide

theorem objects_nodup : objects.Nodup := by
  decide

theorem mem_swaps (s : Swap) : s ∈ swaps := by
  cases s <;> decide

instance : Fintype ObjectId :=
  ⟨⟨objects, objects_nodup⟩, mem_objects⟩

theorem card_objects : Fintype.card ObjectId = nObjects := rfl

/-- No way leads to the inventory. -/
theorem roomData_exits (r : RoomId) :
    (roomData r).left ≠ some .inventory ∧ (roomData r).enter ≠ some .inventory ∧
      (roomData r).right ≠ some .inventory := by
  cases r <;> decide

end CompE.Adventure
