import AblAnalysis.Schema.Description

/-!
The dictionary tables that every database has besides its own, written as a schema description.
Their names all begin with an underscore.
-/

namespace AblAnalysis.Database

/-- Description of the dictionary tables, line by line. -/
def dictionaryLines : List String := [
  "T_Db", "F_Db-name:character:0", "F_Db-type:character:0", "F_Db-addr:integer:0",
  "F_Db-local:logical:0", "F_Db-xl-name:character:0", "F_Db-comm:character:0",
  "F_Db-slave:logical:0", "F_Db-guid:character:0", "I_Db:PU:A_Db-name",
  "T_File", "F_File-Name:character:0", "F_File-Number:integer:0", "F_Dump-name:character:0",
  "F_Desc:character:0", "F_Hidden:logical:0", "F_Frozen:logical:0", "F_DB-lang:integer:0",
  "F_numfld:integer:0", "F_numkey:integer:0", "F_Last-change:integer:0", "F_Owner:character:0",
  "F_For-Name:character:0", "F_Tbl-Type:character:0", "F_Can-Read:character:0",
  "F_Can-Write:character:0", "F_Can-Create:character:0", "F_Can-Delete:character:0",
  "F_Can-Dump:character:0", "F_Can-Load:character:0", "F_Valexp:character:0",
  "F_Valmsg:character:0", "F_Prime-Index:recid:0", "F_Db-recid:recid:0",
  "I_File-Name:PU:A_Db-recid:A_File-Name:A_Owner", "I_File-Number:U:A_Db-recid:A_File-Number",
  "T_Field", "F_File-recid:recid:0", "F_Field-Name:character:0", "F_Data-Type:character:0",
  "F_Extent:integer:0", "F_Order:integer:0", "F_Format:character:0", "F_Label:character:0",
  "F_Col-label:character:0", "F_Initial:character:0", "F_Mandatory:logical:0",
  "F_Decimals:integer:0", "F_Desc:character:0", "F_Help:character:0", "F_Valexp:character:0",
  "F_Valmsg:character:0", "F_Width:integer:0", "F_View-As:character:0",
  "I_Field-Name:PU:A_File-recid:A_Field-Name", "I_Field-Position:U:A_File-recid:A_Order",
  "T_Index", "F_File-recid:recid:0", "F_Index-Name:character:0", "F_Unique:logical:0",
  "F_Active:logical:0", "F_Wordidx:integer:0", "F_num-comp:integer:0", "F_Desc:character:0",
  "F_idx-num:integer:0", "I_Index-Name:PU:A_File-recid:A_Index-Name",
  "T_Index-Field", "F_Index-recid:recid:0", "F_Field-recid:recid:0", "F_Index-Seq:integer:0",
  "F_Ascending:logical:0", "F_Abbreviate:logical:0", "F_Unsorted:logical:0",
  "I_Index/Number:PU:A_Index-recid:A_Index-Seq",
  "T_Sequence", "F_Db-recid:recid:0", "F_Seq-Name:character:0", "F_Seq-Num:integer:0",
  "F_Seq-Init:int64:0", "F_Seq-Incr:int64:0", "F_Seq-Min:int64:0", "F_Seq-Max:int64:0",
  "F_Cycle-Ok:logical:0", "I_Seq-Name:PU:A_Db-recid:A_Seq-Name",
  "T_User", "F_Userid:character:0", "F_Password:character:0", "F_User-Name:character:0",
  "F_Domain-Name:character:0", "F_Disabled:logical:0", "I_Userid:PU:A_Userid:A_Domain-Name",
  "T_Connect", "F_Connect-Id:integer:0", "F_Connect-Usr:integer:0", "F_Connect-Name:character:0",
  "F_Connect-Type:character:0", "F_Connect-Device:character:0", "F_Connect-Time:character:0",
  "F_Connect-Pid:integer:0", "I_Connect-Id:PU:A_Connect-Id",
  "T_MyConnection", "F_MyConn-Id:integer:0", "F_MyConn-UserId:integer:0",
  "F_MyConn-Pid:integer:0", "F_MyConn-NumSeqBuffers:integer:0", "I_MyConn-Id:PU:A_MyConn-Id"]

/-- Adds the dictionary tables. A table already present under one of their names stays as it is. -/
def addDictionary (db : Database) : Except Error Unit × Database :=
  Description.readLines ⟨db, none⟩ 1 dictionaryLines

end AblAnalysis.Database
