import BinlogCodec.Io.Bytes
import BinlogCodec.Io.Read
import BinlogCodec.Io.Write
import BinlogCodec.Header
import BinlogCodec.FormatDescription
import BinlogCodec.Event
import BinlogCodec.Stream
import BinlogCodec.Events.Simple
import BinlogCodec.Events.UserVar
import BinlogCodec.Events.Query
import BinlogCodec.Events.StatusVars
import BinlogCodec.Events.TableMap
import BinlogCodec.Events.Rows
import BinlogCodec.EventData
