import InkDB.Exec
import InkDB.ByteBuffer
import InkDB.Stacking
import InkDB.RankedInsert
import InkDB.Machine
import InkDB.ProgLogic
import InkDB.PageTypes
import InkDB.PageFlags
import InkDB.SlottedPage
import InkDB.IndexPage
import InkDB.SlotDirectory
import InkDB.HeaderRegisters
import InkDB.PageLayout
import InkDB.DirectoryList
import InkDB.PageSpace
import InkDB.CellReaders
import InkDB.IndexModel
import InkDB.IndexCells
import InkDB.IndexRuns
import InkDB.Routing
import InkDB.SeparatorInsert
import InkDB.InsertionOrder
import InkDB.StaleBuffer
import InkDB.PageImage
import InkDB.MemorySafety
import InkDB.PageFrame
import InkDB.Latch
import InkDB.LatchSafety
import InkDB.LatchWaiting
import InkDB.LatchPeek
import InkDB.LatchProgress
import InkDB.PageTable
import InkDB.LatchRefinement
import InkDB.PageRuns
import InkDB.RwLock
import InkDB.FrameLock
