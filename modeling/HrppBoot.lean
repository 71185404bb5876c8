import HrppBoot.Board.Truncation
import HrppBoot.Env.Redundant
import HrppBoot.Usb.Read
import HrppBoot.Fat.RootSearch
import HrppBoot.Net.Reassembly
import HrppBoot.Net.Safety
import HrppBoot.Env.FlashWrite
import HrppBoot.Net.LinkLocal
import HrppBoot.Net.Checksum
import HrppBoot.Net.NfsPath
import HrppBoot.Net.DhcpClient
import HrppBoot.Net.Dns
import HrppBoot.Net.TftpPut
import HrppBoot.Fit.Coverage
import HrppBoot.Fit.HashedNodes
import HrppBoot.Boot.MultiImage
import HrppBoot.Disk.GptCrash
import HrppBoot.Disk.DosTermination
import HrppBoot.Disk.GptInside
import HrppBoot.Dm.Reentry
import HrppBoot.Dm.Removal
import HrppBoot.Dm.BindUndo
import HrppBoot.Ext4.ReadFile
import HrppBoot.Ext4.Termination
import HrppBoot.Ext4.Bitmap
import HrppBoot.Board.Version
import HrppBoot.Board.BootKeys
import HrppBoot.Fat.Termination
import HrppBoot.Fat.Extents
import HrppBoot.Board.RefText
import HrppBoot.Video.Inside
import HrppBoot.Video.Renderers
import HrppBoot.Video.RleStream
import HrppBoot.Video.RawBitmap
import HrppBoot.Tools.ImximageBoot
import HrppBoot.Flash.NandRoundTrip
import HrppBoot.Flash.NandFailing
import HrppBoot.Flash.NandErase
import HrppBoot.Pxe.TextsInMemory
import HrppBoot.Card.Bread
import HrppBoot.Fat.FailingReads
import HrppBoot.Env.Match
import HrppBoot.Env.ExportRoom
import HrppBoot.Env.FwSetenv
import HrppBoot.Fat.SlotRoundTrip
import HrppBoot.Lmb.AllocLargest
import HrppBoot.Flash.CfiBoth
import HrppBoot.Parts.PartsRoundTrip
import HrppBoot.Parts.PartsRoom
import HrppBoot.Parts.CurrentPart
import HrppBoot.Console.HistoryRing
import HrppBoot.Cli.Words
import HrppBoot.Cli.Macros
import HrppBoot.Cli.Commands
import HrppBoot.Flags.Room
import HrppBoot.Console.Stores
import HrppBoot.Env.ImportListed
import HrppBoot.Console.Circbuf
import HrppBoot.Flash.CfiSector
import HrppBoot.Flash.NandPage
import HrppBoot.Fit.Compat
import HrppBoot.Env.TableSize
import HrppBoot.Load.SRecord
import HrppBoot.Env.Hwconfig
import HrppBoot.Disk.Uuid
